/-
# ManagedCode.Proofs.Body.Disassembly — code can be read back.

The disassembler knows no opcode by itself.  It has a template for every way to encode a line, which is the
line with some operand in it, and takes the opcode from what the template is encoded to.  No two templates
have one opcode, so the opcode at the front of some code says which template to fill in with the bytes that
follow; this is all that the instruction set has to provide, and it is checked by evaluation.

Filling in turns an operand into what it was made of.  Tokens of types and members are looked up in the
graph, tokens of strings in the pool, and displacements are added to the offset of the next instruction.
-/
import ManagedCode.Proofs.Body.Listing
import ManagedCode.Proofs.Graph.Tokens
import Mathlib.Data.List.Nodup

namespace ManagedCode

/-- The branch goes through a jump table. -/
def Branch.isTable {Target : Type} : Branch Target → Bool
  | .switch _ => true
  | _ => false

namespace Body

/-! ## § Templates -/

/-- A line with some operand, and the width of the operand in bytes.  Without an operand the line is
complete.  The operand of a jump table is the number of its entries, which follow. -/
structure Template where
  line : Line
  width : Nat
  deriving DecidableEq

/-- The constants that have opcodes of their own. -/
def shortConstants : List Int := [-1, 0, 1, 2, 3, 4, 5, 6, 7, 8]

/-- The indices that have opcodes of their own, for the ways of access that have any. -/
def shortIndices : List UInt16 := [0, 1, 2, 3]

/-- The integers that conversions lead to. -/
def integerTargets : List Primitive := [.i8, .u8, .i16, .u16, .i32, .u32, .i64, .u64, .intPtr, .uintPtr]

/-- The instructions that are encoded as an opcode alone. -/
def bareInstructions : List Instruction :=
  [[.nop, .ldnull, .dup, .pop, .neg, .complement, .ldlen],
    BinaryOp.all.map .binary, ShiftOp.all.map .shift, CompareOp.all.map .compare,
    shortIndices.map (.argument .load), shortIndices.map (.localVariable .load),
    shortIndices.map (.localVariable .store), shortConstants.map fun i => .ldcI4 (.ofInt i),
    integerTargets.map (.conv · false false), integerTargets.map (.conv · true false),
    integerTargets.map (.conv · true true),
    [.conv .f64 false true, .conv .f32 false false, .conv .f64 false false]].flatten

/-- The instructions that name a string, a type or a member, with some name. -/
def tokenInstructions : List Instruction :=
  [.ldstr "", .newarr ⟨0⟩, .ldobj ⟨0⟩, .stobj ⟨0⟩, .initobj ⟨0⟩, .box ⟨0⟩, .unbox ⟨0⟩, .unboxAny ⟨0⟩,
    .castclass ⟨0⟩, .isinst ⟨0⟩, .constrained ⟨0⟩, .sizeof ⟨0⟩, .newobj ⟨0⟩, .call ⟨0⟩, .callvirt ⟨0⟩,
    .ldftn ⟨0⟩, .ldvirtftn ⟨0⟩] ++
    Access.all.flatMap fun access =>
      [.instanceField access ⟨0⟩, .staticField access ⟨0⟩, .element access ⟨0⟩]

/-- The instructions with a number that is spelled out, each with the width. -/
def numberInstructions : List (Instruction × Nat) :=
  [(.ldcI4 127, 1), (.ldcI4 128, 4), (.ldcI8 0, 8), (.ldcR4 0, 4), (.ldcR8 0, 8)] ++
    Access.all.flatMap fun access => [(.argument access 255, 1), (.localVariable access 255, 1),
      (.argument access 256, 2), (.localVariable access 256, 2)]

/-- The branches without a target. -/
def bareBranches : List (Branch Nat) := [.ret, .throw, .rethrow, .endfinally, .endfilter]

/-- The branches with one target, with some target. -/
def targetBranches : List (Branch Nat) :=
  [.br 0, .brfalse 0, .brtrue 0, .leave 0] ++ Comparison.all.map (.compare · 0)

/-- The opcodes that load through an address. -/
def loadOpcodes : List UInt8 := [0x46, 0x47, 0x48, 0x49, 0x4A, 0x4B, 0x4C, 0x4D, 0x4E, 0x4F, 0x50]

/-- The opcodes that store through an address. -/
def storeOpcodes : List UInt8 := [0x51, 0x52, 0x53, 0x54, 0x55, 0x56, 0x57, 0xDF]

/-- **`templates`** — every way to encode a line. -/
def templates : List Template :=
  bareInstructions.map (⟨.plain ·, 0⟩) ++ tokenInstructions.map (⟨.plain ·, 4⟩) ++
    numberInstructions.map (fun insn => ⟨.plain insn.1, insn.2⟩) ++
    loadOpcodes.map (⟨.loadThrough ·, 0⟩) ++ storeOpcodes.map (⟨.storeThrough ·, 0⟩) ++
    bareBranches.map (⟨.jump ·, 0⟩) ++ targetBranches.map (⟨.jump ·, offsetWidth⟩) ++
    [⟨.jump (.switch []), 4⟩]

/-! ## § Opcodes -/

/-- The number of the opcode that some code starts with, and the code after it.  The numbers of two-byte
opcodes are above those of all bytes. -/
def splitOpcode : List UInt8 → Option (Nat × List UInt8)
  | [] => none
  | first :: rest =>
    if first = extensionByte then rest.head?.map fun second => (0xFE00 + second.toNat, rest.tail)
    else some (first.toNat, rest)

/-- What a line is encoded to with nothing to look names up in; its opcode is that of the line. -/
def blankBytes : Line → List UInt8
  | .plain insn => encode .empty {} insn
  | .loadThrough opcode | .storeThrough opcode => [opcode]
  | .jump b => branchHead (b.map Label.mk) ++ b.targets.flatMap fun _ => blank

/-- The number of the opcode of a template. -/
def Template.opcode? (t : Template) : Option Nat := (splitOpcode (blankBytes t.line)).map Prod.fst

/-- **`opcodes_distinct`** — no two templates share an opcode. -/
theorem opcodes_distinct : (templates.map Template.opcode?).Nodup := by
  decide +kernel

/-- A template is found again by its opcode. -/
theorem find?_opcode {t : Template} (ht : t ∈ templates) :
    templates.find? (·.opcode? == t.opcode?) = some t := by
  cases hfound : templates.find? (·.opcode? == t.opcode?) with
  | none => exact absurd (beq_self_eq_true _) (List.find?_eq_none.mp hfound t ht)
  | some u =>
    have hsame : u.opcode? = t.opcode? := by simpa using List.find?_some hfound
    exact congrArg some (List.inj_on_of_nodup_map opcodes_distinct (List.mem_of_find?_eq_some hfound) ht hsame)

theorem splitOpcode_cons {opcode : UInt8} (h : opcode ≠ extensionByte) (rest : List UInt8) :
    splitOpcode (opcode :: rest) = some (opcode.toNat, rest) := by
  rw [splitOpcode, if_neg h]

theorem splitOpcode_extended (opcode : UInt8) (rest : List UInt8) :
    splitOpcode (extended opcode ++ rest) = some (0xFE00 + opcode.toNat, rest) := rfl

/-- What follows does not change the opcode. -/
theorem splitOpcode_append {bytes operand : List UInt8} {number : Nat}
    (h : splitOpcode bytes = some (number, operand)) (rest : List UInt8) :
    splitOpcode (bytes ++ rest) = some (number, operand ++ rest) := by
  cases bytes with
  | nil => cases h
  | cons first bytes =>
    rw [List.cons_append, splitOpcode]
    rw [splitOpcode] at h
    split
    · rename_i hext
      rw [if_pos hext] at h
      cases bytes with
      | nil => cases h
      | cons second bytes =>
        cases h
        rfl
    · rename_i hplain
      rw [if_neg hplain] at h
      cases h
      rfl

/-! ## § Operands -/

/-- The token that an operand spells. -/
def tokenOf (operand : List UInt8) : UInt32 := .ofNat (ofLittleEndian operand)

/-- The offset that a displacement leads to from the end of its branch. -/
def targetAt (stop : Nat) (operand : List UInt8) : Nat := (stop + ofLittleEndianInt operand).toNat

/-- The instruction with the operand that the bytes spell. -/
def fillOperand (g : TypeGraph) (strings : List String) (operand : List UInt8) :
    Instruction → Option Instruction
  | .argument access _ => some (.argument access (.ofNat (ofLittleEndian operand)))
  | .localVariable access _ => some (.localVariable access (.ofNat (ofLittleEndian operand)))
  | .ldcI4 _ => some (.ldcI4 (.ofInt (ofLittleEndianInt operand)))
  | .ldcI8 _ => some (.ldcI8 (.ofInt (ofLittleEndianInt operand)))
  | .ldcR4 _ => some (.ldcR4 (.ofNat (ofLittleEndian operand)))
  | .ldcR8 _ => some (.ldcR8 (.ofNat (ofLittleEndian operand)))
  | .ldstr _ => (strings[ofLittleEndian operand - 0x70000001]?).map .ldstr
  | .instanceField access _ => (g.fieldOf? (tokenOf operand)).map (.instanceField access)
  | .staticField access _ => (g.fieldOf? (tokenOf operand)).map (.staticField access)
  | .element access _ => (g.typeOf? (tokenOf operand)).map (.element access)
  | .newarr _ => (g.typeOf? (tokenOf operand)).map .newarr
  | .ldobj _ => (g.typeOf? (tokenOf operand)).map .ldobj
  | .stobj _ => (g.typeOf? (tokenOf operand)).map .stobj
  | .initobj _ => (g.typeOf? (tokenOf operand)).map .initobj
  | .box _ => (g.typeOf? (tokenOf operand)).map .box
  | .unbox _ => (g.typeOf? (tokenOf operand)).map .unbox
  | .unboxAny _ => (g.typeOf? (tokenOf operand)).map .unboxAny
  | .castclass _ => (g.typeOf? (tokenOf operand)).map .castclass
  | .isinst _ => (g.typeOf? (tokenOf operand)).map .isinst
  | .constrained _ => (g.typeOf? (tokenOf operand)).map .constrained
  | .sizeof _ => (g.typeOf? (tokenOf operand)).map .sizeof
  | .newobj _ => (g.methodOf? (tokenOf operand)).map .newobj
  | .call _ => (g.methodOf? (tokenOf operand)).map .call
  | .callvirt _ => (g.methodOf? (tokenOf operand)).map .callvirt
  | .ldftn _ => (g.methodOf? (tokenOf operand)).map .ldftn
  | .ldvirtftn _ => (g.methodOf? (tokenOf operand)).map .ldvirtftn
  | _ => none

/-- The offsets that the entries of a jump table lead to. -/
def targetsAt (stop : Nat) : (count : Nat) → List UInt8 → List Nat
  | 0, _ => []
  | count + 1, bytes =>
    targetAt stop (bytes.take offsetWidth) :: targetsAt stop count (bytes.drop offsetWidth)

/-! ## § Reading -/

section Reading

variable (g : TypeGraph) (strings : List String) (size : Nat)

/-- Reads the entries of a jump table. -/
def readTable (count : Nat) (bytes : List UInt8) : Option (Line × List UInt8) :=
  if bytes.length < offsetWidth * count then none
  else
    let rest := bytes.drop (offsetWidth * count)
    some (.jump (.switch (targetsAt (size - rest.length) count bytes)), rest)

/-- Reads the operand of a template. -/
def Template.read (t : Template) (bytes : List UInt8) : Option (Line × List UInt8) :=
  if bytes.length < t.width then none
  else
    let operand := bytes.take t.width
    let rest := bytes.drop t.width
    match t.line with
    | .plain insn =>
      (if t.width = 0 then some insn else fillOperand g strings operand insn).map (.plain ·, rest)
    | .jump b =>
      if b.isTable then readTable size (ofLittleEndian operand) rest
      else some (.jump (b.map fun _ => targetAt (size - rest.length) operand), rest)
    | line => some (line, rest)

/-- **`read`** — the first line of some code, and the code after it.  The offset of the latter is known from
the size of the whole. -/
def read (bytes : List UInt8) : Option (Line × List UInt8) :=
  (splitOpcode bytes).bind fun (number, operand) =>
    (templates.find? (·.opcode? == some number)).bind fun t => t.read g strings size operand

/-- **`Reads`** — the lines at the beginning of some code, and the code after them. -/
inductive Reads : List UInt8 → List Line → List UInt8 → Prop
  | done (bytes : List UInt8) : Reads bytes [] bytes
  | line {bytes between rest : List UInt8} {line : Line} {lines : List Line} :
      read g strings size bytes = some (line, between) → Reads between lines rest →
      Reads bytes (line :: lines) rest

variable {g strings size}

theorem Reads.append {bytes between rest : List UInt8} {lines lines' : List Line}
    (h : Reads g strings size bytes lines between) (h' : Reads g strings size between lines' rest) :
    Reads g strings size bytes (lines ++ lines') rest := by
  induction h with
  | done => exact h'
  | line hread _ ih => exact .line hread (ih h')

/-- **`Reads.unique`** — there is one way to read the whole of some code. -/
theorem Reads.unique {bytes : List UInt8} {lines lines' : List Line}
    (h : Reads g strings size bytes lines []) (h' : Reads g strings size bytes lines' []) :
    lines = lines' := by
  generalize hend : ([] : List UInt8) = rest at h
  induction h generalizing lines' with
  | done =>
    subst hend
    cases h' with
    | done => rfl
    | line hread => cases hread
  | line hread _ ih =>
    cases h' with
    | done =>
      subst hend
      cases hread
    | line hread' hrest' =>
      cases hread.symm.trans hread'
      rw [ih hrest' hend]

/-! ## § Reading a template -/

theorem read_of_template {t : Template} {number : Nat} {bytes operand : List UInt8} (ht : t ∈ templates)
    (hnumber : t.opcode? = some number) (hsplit : splitOpcode bytes = some (number, operand))
    (rest : List UInt8) : read g strings size (bytes ++ rest) = t.read g strings size (operand ++ rest) := by
  have hfound := find?_opcode ht
  rw [hnumber] at hfound
  rw [read, splitOpcode_append hsplit, Option.bind_some]
  dsimp only
  rw [hfound, Option.bind_some]

/-- A line that is encoded as an opcode alone is read back, if its template is complete. -/
theorem read_complete (line : Line) (ht : ⟨line, 0⟩ ∈ templates)
    (hopcode : (splitOpcode (blankBytes line)).map Prod.snd = some [])
    (hread : ∀ bytes, Template.read g strings size ⟨line, 0⟩ bytes = some (line, bytes)) (rest : List UInt8) :
    read g strings size (blankBytes line ++ rest) = some (line, rest) := by
  obtain ⟨⟨number, operand⟩, hsplit, hnil⟩ := Option.map_eq_some_iff.mp hopcode
  obtain rfl : operand = [] := hnil
  have hnumber : Template.opcode? ⟨line, 0⟩ = some number := by
    rw [Template.opcode?, hsplit, Option.map_some]
  rw [read_of_template ht hnumber hsplit, List.nil_append, hread]

/-- An opcode alone says what instruction it is of. -/
theorem read_bare {insn : Instruction} (h : insn ∈ bareInstructions) {bytes : List UInt8}
    (hbytes : bytes = encode .empty {} insn) (rest : List UInt8) :
    read g strings size (bytes ++ rest) = some (.plain insn, rest) := by
  have ht : ⟨.plain insn, 0⟩ ∈ templates := by simp [templates, h]
  have hopcode : ∀ insn ∈ bareInstructions,
      (splitOpcode (blankBytes (.plain insn))).map Prod.snd = some [] := by
    decide +kernel
  rw [hbytes]
  exact read_complete (.plain insn) ht (hopcode insn h) (fun _ => rfl) rest

/-- An operand is filled in. -/
theorem read_filled {insn' insn : Instruction} {width number : Nat} {bytes operand : List UInt8}
    (ht : ⟨.plain insn', width⟩ ∈ templates) (hpos : 0 < width)
    (hnumber : Template.opcode? ⟨.plain insn', width⟩ = some number)
    (hsplit : splitOpcode bytes = some (number, operand)) (hwidth : operand.length = width)
    (hfill : fillOperand g strings operand insn' = some insn) (rest : List UInt8) :
    read g strings size (bytes ++ rest) = some (.plain insn, rest) := by
  have henough : ¬ (operand ++ rest).length < width := by
    rw [List.length_append]
    omega
  rw [read_of_template ht hnumber hsplit, Template.read, if_neg henough]
  dsimp only
  rw [if_neg (Nat.ne_of_gt hpos), List.take_left' hwidth, List.drop_left' hwidth, hfill]
  rfl

/-- The operand of an instruction of the table of numbers. -/
theorem read_number (insn' : Instruction) {insn : Instruction} {width : Nat} {opcode : UInt8}
    {operand : List UInt8} (h : (insn', width) ∈ numberInstructions ∧ 0 < width ∧ opcode ≠ extensionByte ∧
      Template.opcode? ⟨.plain insn', width⟩ = some opcode.toNat) (hwidth : operand.length = width)
    (hfill : fillOperand g strings operand insn' = some insn) (rest : List UInt8) :
    read g strings size (opcode :: operand ++ rest) = some (.plain insn, rest) := by
  obtain ⟨hmem, hpos, hplain, hnumber⟩ := h
  have ht : ⟨.plain insn', width⟩ ∈ templates := by
    simp only [templates, List.mem_append, List.mem_map]
    exact .inl (.inl (.inl (.inl (.inl (.inr ⟨_, hmem, rfl⟩)))))
  exact read_filled ht hpos hnumber (splitOpcode_cons hplain operand) hwidth hfill rest

/-- A token is read back as what it is the token of. -/
theorem read_token (insn' : Instruction) {insn : Instruction} {number : Nat} {bytes : List UInt8}
    {token : UInt32} (h : insn' ∈ tokenInstructions ∧ Template.opcode? ⟨.plain insn', 4⟩ = some number)
    (hsplit : splitOpcode bytes = some (number, littleEndian 4 token.toNat))
    (hfill : fillOperand g strings (littleEndian 4 token.toNat) insn' = some insn) (rest : List UInt8) :
    read g strings size (bytes ++ rest) = some (.plain insn, rest) := by
  have ht : ⟨.plain insn', 4⟩ ∈ templates := by simp [templates, h.1]
  exact read_filled ht (by decide) h.2 hsplit (length_littleEndian 4 _) hfill rest

/-! ## § Indices and constants -/

/-- An index is read back whatever form it was given, if there is a template for each form. -/
theorem read_indexed (forms : IndexedForms) (insn : UInt16 → Instruction)
    (hshort : ∀ base, forms.short = some base → shortIndices.all fun i =>
      insn i ∈ bareInstructions ∧ [base + i.toUInt8] = encode .empty {} (insn i))
    (hbyte : (insn 255, 1) ∈ numberInstructions ∧ 0 < 1 ∧ forms.byteIndex ≠ extensionByte ∧
      Template.opcode? ⟨.plain (insn 255), 1⟩ = some forms.byteIndex.toNat)
    (hword : ⟨.plain (insn 256), 2⟩ ∈ templates ∧
      Template.opcode? ⟨.plain (insn 256), 2⟩ = some (0xFE00 + forms.wordIndex.toNat))
    (hfill : ∀ i operand, fillOperand g strings operand (insn i) =
      some (insn (.ofNat (ofLittleEndian operand)))) (index : UInt16) (rest : List UInt8) :
    read g strings size (forms.encode index ++ rest) = some (.plain (insn index), rest) := by
  have hspelled : read g strings size (forms.spellOut index ++ rest) = some (.plain (insn index), rest) := by
    rw [IndexedForms.spellOut]
    split
    · rename_i hsmall
      refine read_number (insn 255) hbyte rfl ?_ rest
      have hlt : index.toNat < 256 := Nat.lt_succ_of_le (UInt16.le_iff_toNat_le.mp hsmall)
      have hvalue : ofLittleEndian [index.toUInt8] = index.toNat := by
        rw [ofLittleEndian, ofLittleEndian, UInt16.toNat_toUInt8]
        omega
      rw [hfill, hvalue, UInt16.ofNat_toNat]
    · refine read_filled hword.1 (by decide) hword.2 (splitOpcode_extended _ _) (length_littleEndian 2 _) ?_
        rest
      have hlt : index.toNat < Nat.pow 256 2 := index.toNat_lt
      rw [hfill, ofLittleEndian_littleEndian, Nat.mod_eq_of_lt hlt, UInt16.ofNat_toNat]
  rw [IndexedForms.encode]
  cases hforms : forms.short with
  | none => exact hspelled
  | some base =>
    dsimp only
    split
    · rename_i hle
      have hindex : index ∈ shortIndices := by
        have hnat : index.toNat ≤ 3 := UInt16.le_iff_toNat_le.mp hle
        have hcases : index.toNat = 0 ∨ index.toNat = 1 ∨ index.toNat = 2 ∨ index.toNat = 3 := by omega
        rcases hcases with h | h | h | h <;>
          simp [shortIndices, ← UInt16.toNat_inj, h]
      obtain ⟨hmem, hbytes⟩ := of_decide_eq_true (List.all_eq_true.mp (hshort base hforms) index hindex)
      exact read_bare hmem hbytes rest
    · exact hspelled

/-- A 32-bit constant is read back from each of its forms. -/
theorem read_encodeInt (value : Int32) (rest : List UInt8) :
    read g strings size (encodeInt value ++ rest) = some (.plain (.ldcI4 value), rest) := by
  have hvalue : Int32.ofInt value.toInt = value := Int32.ofInt_toInt value
  rw [encodeInt]
  split
  · rename_i hsmall
    have hmem : value.toInt ∈ shortConstants := by
      simp only [Bool.and_eq_true, decide_eq_true_eq] at hsmall
      simp only [shortConstants, List.mem_cons, List.not_mem_nil, or_false]
      omega
    have hshort : ∀ i ∈ shortConstants,
        .ldcI4 (.ofInt i) ∈ bareInstructions ∧
          littleEndianInt 1 (0x16 + i) = encode .empty {} (.ldcI4 (.ofInt i)) := by
      decide +kernel
    obtain ⟨hbare, hbytes⟩ := hshort _ hmem
    rw [hvalue] at hbare hbytes
    exact read_bare hbare hbytes rest
  · split
    · rename_i hbyte
      simp only [Bool.and_eq_true, decide_eq_true_eq] at hbyte
      refine read_number (.ldcI4 127) (by decide +kernel) (length_littleEndianInt 1 _) ?_ rest
      have hfits := ofLittleEndianInt_fits (show Nat.pow 256 1 = 2 * 128 by decide) hbyte.1
        (Int.lt_add_one_of_le hbyte.2)
      rw [fillOperand, hfits, hvalue]
    · refine read_number (.ldcI4 128) (by decide +kernel) (length_littleEndianInt 4 _) ?_ rest
      have hfits := ofLittleEndianInt_fits (show Nat.pow 256 4 = 2 * 2 ^ 31 by decide) value.le_toInt
        value.toInt_lt
      rw [fillOperand, hfits, hvalue]

/-! ## § Branches -/

/-- A branch without a target is read back. -/
theorem read_bareBranch {b : Branch Nat} (h : b ∈ bareBranches) (rest : List UInt8) :
    read g strings size (branchHead (b.map Label.mk) ++ rest) = some (.jump b, rest) := by
  have ht : ⟨.jump b, 0⟩ ∈ templates := by simp [templates, h]
  simp only [bareBranches, List.mem_cons, List.not_mem_nil, or_false] at h
  rcases h with rfl | rfl | rfl | rfl | rfl <;>
    exact read_complete (.jump _) ht (by decide) (fun _ => rfl) rest

/-- A branch with one target is read back with the offset that its operand leads to. -/
theorem read_targetBranch {b : Branch Nat} (h : b ∈ targetBranches) {operand : List UInt8}
    (hwidth : operand.length = offsetWidth) (rest : List UInt8) :
    read g strings size (branchHead (b.map Label.mk) ++ operand ++ rest) =
      some (.jump (b.map fun _ => targetAt (size - rest.length) operand), rest) := by
  have ht : ⟨.jump b, offsetWidth⟩ ∈ templates := by simp [templates, h]
  have hhead : ∀ b ∈ targetBranches,
      (splitOpcode (branchHead (b.map Label.mk))).map Prod.snd = some [] ∧ b.isTable = false := by
    decide +kernel
  obtain ⟨hopcode, htable⟩ := hhead b h
  obtain ⟨⟨number, tail⟩, hsplit, hnil⟩ := Option.map_eq_some_iff.mp hopcode
  obtain rfl : tail = [] := hnil
  have hnumber : Template.opcode? ⟨.jump b, offsetWidth⟩ = some number := by
    rw [Template.opcode?, blankBytes, splitOpcode_append hsplit, Option.map_some]
  have henough : ¬ ([] ++ operand ++ rest).length < offsetWidth := by
    simp only [List.nil_append, List.length_append]
    omega
  rw [read_of_template ht hnumber (splitOpcode_append hsplit operand), Template.read, if_neg henough]
  dsimp only
  rw [if_neg (by rw [htable]; exact Bool.false_ne_true), List.nil_append, List.take_left' hwidth,
    List.drop_left' hwidth]

section Targets

variable {operand : Label → List UInt8} (hwidth : ∀ l, (operand l).length = offsetWidth)
include hwidth

theorem targetsAt_flatMap (stop : Nat) (targets : List Label) (rest : List UInt8) :
    targetsAt stop targets.length (targets.flatMap operand ++ rest) =
      targets.map fun l => targetAt stop (operand l) := by
  induction targets with
  | nil => rfl
  | cons target targets ih =>
    rw [List.length_cons, targetsAt, List.flatMap_cons, List.append_assoc, List.take_left' (hwidth target),
      List.drop_left' (hwidth target), ih, List.map_cons]

/-- A jump table is read back with the offsets that its entries lead to. -/
theorem read_switch {targets : List Label} (hcount : targets.length < 4294967296) (rest : List UInt8) :
    read g strings size (0x45 :: littleEndian 4 targets.length ++ targets.flatMap operand ++ rest) =
      some (.jump (.switch (targets.map fun l => targetAt (size - rest.length) (operand l))), rest) := by
  have ht : ⟨.jump (.switch []), 4⟩ ∈ templates := by decide +kernel
  have hnumber : Template.opcode? ⟨.jump (.switch []), 4⟩ = some (0x45 : UInt8).toNat := by decide +kernel
  have hsplit := splitOpcode_cons (show (0x45 : UInt8) ≠ extensionByte by decide)
    (littleEndian 4 targets.length ++ targets.flatMap operand)
  have hlength : (littleEndian 4 targets.length).length = 4 := length_littleEndian 4 _
  have hentries : (targets.flatMap operand).length = offsetWidth * targets.length :=
    length_flatMap hwidth targets
  have henough : ¬ (littleEndian 4 targets.length ++ (targets.flatMap operand ++ rest)).length < 4 := by
    rw [List.length_append, hlength]
    omega
  have hcountread : ofLittleEndian (littleEndian 4 targets.length) = targets.length := by
    rw [ofLittleEndian_littleEndian]
    exact Nat.mod_eq_of_lt hcount
  have hall : ¬ (targets.flatMap operand ++ rest).length < offsetWidth * targets.length := by
    rw [List.length_append, hentries]
    omega
  rw [List.cons_append, read_of_template ht hnumber hsplit, List.append_assoc, Template.read,
    if_neg henough]
  dsimp only
  rw [if_pos (show (Branch.switch ([] : List Nat)).isTable = true from rfl), List.take_left' hlength, List.drop_left' hlength, hcountread, readTable, if_neg hall]
  dsimp only
  rw [List.drop_left' hentries, targetsAt_flatMap hwidth]

/-- **`read_branch`** — a branch is read back with the offsets that its operands lead to. -/
theorem read_branch {b : Branch Label} (hcount : b.targets.length < 4294967296) (rest : List UInt8) :
    read g strings size (branchHead b ++ b.targets.flatMap operand ++ rest) =
      some (.jump (b.map fun l => targetAt (size - rest.length) (operand l)), rest) := by
  have htarget {b : Branch Nat} (h : b ∈ targetBranches) (l : Label) :
      read g strings size (branchHead (b.map Label.mk) ++ [l].flatMap operand ++ rest) =
        some (.jump (b.map fun _ => targetAt (size - rest.length) (operand l)), rest) := by
    rw [show [l].flatMap operand = operand l from List.append_nil _]
    exact read_targetBranch h (hwidth l) rest
  cases b with
  | br l => exact htarget (show .br 0 ∈ targetBranches by decide) l
  | brtrue l => exact htarget (show .brtrue 0 ∈ targetBranches by decide) l
  | brfalse l => exact htarget (show .brfalse 0 ∈ targetBranches by decide) l
  | leave l => exact htarget (show .leave 0 ∈ targetBranches by decide) l
  | compare c l => exact htarget (show .compare c 0 ∈ targetBranches by cases c <;> decide) l
  | switch targets => exact read_switch hwidth hcount rest
  | ret => exact read_bareBranch (show .ret ∈ bareBranches by decide) rest
  | throw => exact read_bareBranch (show .throw ∈ bareBranches by decide) rest
  | rethrow => exact read_bareBranch (show .rethrow ∈ bareBranches by decide) rest
  | endfinally => exact read_bareBranch (show .endfinally ∈ bareBranches by decide) rest
  | endfilter => exact read_bareBranch (show .endfilter ∈ bareBranches by decide) rest

end Targets

end Reading

end Body

end ManagedCode
