/-
# ManagedCode.Proofs.Body.Unambiguous — the bytes and the strings of a body determine its code.

Every instruction is read back from its bytes, whatever follows them.  Strings are known by their place in
the pool, which only grows, so the pool of the finished body says what each of them is; the operand of a
branch and the end of the branch say where it leads to.  So the disassembler reads from a finished body the
lines of the calls that the writer was given, and two bodies that are alike were given calls that say the
same.
-/
import ManagedCode.Proofs.Body.Disassembly
import ManagedCode.Proofs.Builder.Session

namespace ManagedCode

namespace Body

/-! ## § Straight-line instructions -/

section Instructions

variable {g : TypeGraph} {strings : List String} {size : Nat}

theorem Reads.single {bytes rest : List UInt8} {line : Line}
    (h : read g strings size bytes = some (line, rest)) : Reads g strings size bytes [line] rest :=
  .line h (.done rest)

/-- Instructions without operands are read back one after the other. -/
theorem reads_bare {insns : List Instruction} (h : ∀ insn ∈ insns, insn ∈ bareInstructions)
    (rest : List UInt8) :
    Reads g strings size (insns.flatMap (encode .empty {}) ++ rest) (insns.map .plain) rest := by
  induction insns with
  | nil => exact .done rest
  | cons insn insns ih =>
    rw [List.forall_mem_cons] at h
    rw [List.flatMap_cons, List.append_assoc, List.map_cons]
    exact .line (read_bare h.1 rfl _) (ih h.2)

/-- A conversion is encoded as its steps are. -/
theorem encode_conversionSteps (target : Primitive) (checked unsignedSource : Bool) :
    (∀ insn ∈ conversionSteps target checked unsignedSource, insn ∈ bareInstructions) ∧
      (conversionSteps target checked unsignedSource).flatMap (encode .empty {}) =
        encodeConversion target checked unsignedSource := by
  have hall : ∀ target ∈ Primitive.all, ∀ checked unsignedSource,
      (∀ insn ∈ conversionSteps target checked unsignedSource, insn ∈ bareInstructions) ∧
        (conversionSteps target checked unsignedSource).flatMap (encode .empty {}) =
          encodeConversion target checked unsignedSource := by
    decide +kernel
  exact hall target (by cases target <;> decide) checked unsignedSource

/-- Access through an address has the opcodes of the two lists. -/
theorem mem_of_indirectOpcodes? {t : TypeEntry} {load store : UInt8}
    (h : indirectOpcodes? t = some (load, store)) : load ∈ loadOpcodes ∧ store ∈ storeOpcodes := by
  rw [indirectOpcodes?] at h
  split at h
  · cases h
    decide
  · obtain ⟨p, -, hp⟩ := Option.map_eq_some_iff.mp h
    cases p <;> cases hp <;> decide

theorem extensionByte_not_mem : extensionByte ∉ loadOpcodes ++ storeOpcodes := by
  decide

theorem read_loadThrough {opcode : UInt8} (h : opcode ∈ loadOpcodes) (rest : List UInt8) :
    read g strings size ([opcode] ++ rest) = some (.loadThrough opcode, rest) := by
  have hplain := ne_of_mem_of_not_mem (List.mem_append_left storeOpcodes h) extensionByte_not_mem
  refine read_complete (.loadThrough opcode) (by simp [templates, h]) ?_ (fun _ => rfl) rest
  rw [blankBytes, splitOpcode_cons hplain, Option.map_some]

theorem read_storeThrough {opcode : UInt8} (h : opcode ∈ storeOpcodes) (rest : List UInt8) :
    read g strings size ([opcode] ++ rest) = some (.storeThrough opcode, rest) := by
  have hplain := ne_of_mem_of_not_mem (List.mem_append_right loadOpcodes h) extensionByte_not_mem
  refine read_complete (.storeThrough opcode) (by simp [templates, h]) ?_ (fun _ => rfl) rest
  rw [blankBytes, splitOpcode_cons hplain, Option.map_some]

/-- A string of a pool that fits is found again by its token. -/
theorem getElem?_token {pool : StringPool} {s : String} (hpool : pool.strings.toList <+: strings)
    (hfit : strings.length < 16777216) (hs : s ∈ pool.strings) :
    strings[ofLittleEndian (littleEndian 4 (pool.token s).toNat) - 0x70000001]? = some s := by
  have hmem : s ∈ pool.strings.toList := Array.mem_toList_iff.mpr hs
  obtain ⟨later, rfl⟩ := hpool
  have hlt : pool.strings.toList.idxOf s < pool.strings.toList.length := List.idxOf_lt_length_of_mem hmem
  rw [List.length_append] at hfit
  have hrow : (pool.token s).toNat = 0x70000000 + (pool.strings.toList.idxOf s + 1) := by
    rw [StringPool.token, UInt32.toNat_or, UInt32.toNat_ofNat', Nat.mod_eq_of_lt (by omega)]
    exact (Nat.shiftLeft_add_eq_or_of_lt (i := 24) (by omega) 0x70).symm
  have hwidth : Nat.pow 256 4 = 4294967296 := by decide
  have hread : ofLittleEndian (littleEndian 4 (pool.token s).toNat) - 0x70000001 =
      pool.strings.toList.idxOf s := by
    rw [ofLittleEndian_littleEndian, hwidth, hrow]
    omega
  rw [hread, List.getElem?_append_left hlt]
  exact List.getElem?_idxOf hmem

theorem tokenOf_littleEndian (token : UInt32) : tokenOf (littleEndian 4 token.toNat) = token := by
  have hlt : token.toNat < Nat.pow 256 4 := token.toNat_lt
  rw [tokenOf, ofLittleEndian_littleEndian, Nat.mod_eq_of_lt hlt, UInt32.ofNat_toNat]

theorem read_argument (access : Access) (index : UInt16) (rest : List UInt8) :
    read g strings size ((argumentForms access).encode index ++ rest) =
      some (.plain (.argument access index), rest) := by
  refine read_indexed (argumentForms access) (.argument access) ?_ ?_ ?_ (fun _ _ => rfl) index rest
  · intro base hbase
    cases access <;> cases hbase
    decide +kernel
  · cases access <;> decide +kernel
  · cases access <;> decide +kernel

theorem read_localVariable (access : Access) (index : UInt16) (rest : List UInt8) :
    read g strings size ((localForms access).encode index ++ rest) =
      some (.plain (.localVariable access index), rest) := by
  refine read_indexed (localForms access) (.localVariable access) ?_ ?_ ?_ (fun _ _ => rfl) index rest
  · intro base hbase
    cases access <;> cases hbase <;> decide +kernel
  · cases access <;> decide +kernel
  · cases access <;> decide +kernel

section Names

variable (hg : g.Numbered) (hfit : g.RowsFit)
include hg hfit

/-- An instruction with a type is read back, if it is filled in by looking the type up. -/
theorem read_type (insn : TypeId → Instruction) {t : TypeId} {bytes : List UInt8} {number : Nat}
    (ht : g.Knows t)
    (h : insn ⟨0⟩ ∈ tokenInstructions ∧ Template.opcode? ⟨.plain (insn ⟨0⟩), 4⟩ = some number)
    (hsplit : splitOpcode bytes = some (number, littleEndian 4 (g.type t).token.toNat))
    (hfill : ∀ operand, fillOperand g strings operand (insn ⟨0⟩) =
      (g.typeOf? (tokenOf operand)).map insn) (rest : List UInt8) :
    read g strings size (bytes ++ rest) = some (.plain (insn t), rest) := by
  refine read_token (insn ⟨0⟩) h hsplit ?_ rest
  rw [hfill, tokenOf_littleEndian, TypeGraph.typeOf?_token hg hfit ht, Option.map_some]

/-- An instruction with a field is read back, if it is filled in by looking the field up. -/
theorem read_field (insn : FieldId → Instruction) {f : FieldId} {bytes : List UInt8} {number : Nat}
    (hf : g.KnowsField f)
    (h : insn ⟨0⟩ ∈ tokenInstructions ∧ Template.opcode? ⟨.plain (insn ⟨0⟩), 4⟩ = some number)
    (hsplit : splitOpcode bytes = some (number, littleEndian 4 (g.field f).token.toNat))
    (hfill : ∀ operand, fillOperand g strings operand (insn ⟨0⟩) =
      (g.fieldOf? (tokenOf operand)).map insn) (rest : List UInt8) :
    read g strings size (bytes ++ rest) = some (.plain (insn f), rest) := by
  refine read_token (insn ⟨0⟩) h hsplit ?_ rest
  rw [hfill, tokenOf_littleEndian, TypeGraph.fieldOf?_token hg hfit hf, Option.map_some]

/-- An instruction with a method is read back, if it is filled in by looking the method up. -/
theorem read_method (insn : MethodId → Instruction) {m : MethodId} {bytes : List UInt8} {number : Nat}
    (hm : g.KnowsMethod m)
    (h : insn ⟨0⟩ ∈ tokenInstructions ∧ Template.opcode? ⟨.plain (insn ⟨0⟩), 4⟩ = some number)
    (hsplit : splitOpcode bytes = some (number, littleEndian 4 (g.method m).token.toNat))
    (hfill : ∀ operand, fillOperand g strings operand (insn ⟨0⟩) =
      (g.methodOf? (tokenOf operand)).map insn) (rest : List UInt8) :
    read g strings size (bytes ++ rest) = some (.plain (insn m), rest) := by
  refine read_token (insn ⟨0⟩) h hsplit ?_ rest
  rw [hfill, tokenOf_littleEndian, TypeGraph.methodOf?_token hg hfit hm, Option.map_some]

/-- **`reads_encode`** — a straight-line instruction is read back from its bytes. -/
theorem reads_encode {pool : StringPool} (hpool : pool.strings.toList <+: strings)
    (hstrings : strings.length < 16777216) {insn : Instruction} (hknown : insn.Known g)
    (htext : ∀ s, insn = .ldstr s → s ∈ pool.strings) (rest : List UInt8) :
    Reads g strings size (encode g pool insn ++ rest) (insn.lines g) rest := by
  have hbare (h : insn ∈ bareInstructions) (hbytes : encode g pool insn = encode .empty {} insn)
      (hline : insn.lines g = [.plain insn]) :
      Reads g strings size (encode g pool insn ++ rest) (insn.lines g) rest := by
    rw [hline]
    exact .single (read_bare h hbytes rest)
  have hobject {insn : TypeId → Instruction} {t : TypeId} {opcode : UInt8} (ht : g.Knows t)
      (h : insn ⟨0⟩ ∈ tokenInstructions ∧ Template.opcode? ⟨.plain (insn ⟨0⟩), 4⟩ = some opcode.toNat)
      (hplain : opcode ≠ extensionByte) (hfill : ∀ operand, fillOperand g strings operand (insn ⟨0⟩) =
        (g.typeOf? (tokenOf operand)).map insn) :
      Reads g strings size (withToken opcode (g.type t).token ++ rest) [.plain (insn t)] rest :=
    .single (read_type hg hfit insn ht h (splitOpcode_cons hplain _) hfill rest)
  cases insn with
  | nop => exact hbare (by decide +kernel) rfl rfl
  | ldnull => exact hbare (by decide +kernel) rfl rfl
  | dup => exact hbare (by decide +kernel) rfl rfl
  | pop => exact hbare (by decide +kernel) rfl rfl
  | neg => exact hbare (by decide +kernel) rfl rfl
  | complement => exact hbare (by decide +kernel) rfl rfl
  | ldlen => exact hbare (by decide +kernel) rfl rfl
  | binary op => exact hbare (by cases op <;> decide +kernel) rfl rfl
  | shift op => exact hbare (by cases op <;> decide +kernel) rfl rfl
  | compare op => exact hbare (by cases op <;> decide +kernel) rfl rfl
  | conv target checked unsignedSource =>
    obtain ⟨hmem, hbytes⟩ := encode_conversionSteps target checked unsignedSource
    rw [encode, ← hbytes]
    exact reads_bare hmem rest
  | argument access index => exact .single (read_argument access index rest)
  | localVariable access index => exact .single (read_localVariable access index rest)
  | ldcI4 value => exact .single (read_encodeInt value rest)
  | ldcI8 value =>
    refine .single (read_number (.ldcI8 0) (by decide +kernel) (length_littleEndianInt 8 _) ?_ rest)
    have hfits := ofLittleEndianInt_fits (show Nat.pow 256 8 = 2 * 2 ^ 63 by decide) value.le_toInt
      value.toInt_lt
    rw [fillOperand, hfits, Int64.ofInt_toInt]
  | ldcR4 bits =>
    refine .single (read_number (.ldcR4 0) (by decide +kernel) (length_littleEndian 4 _) ?_ rest)
    have hlt : bits.toNat < Nat.pow 256 4 := bits.toNat_lt
    rw [fillOperand, ofLittleEndian_littleEndian, Nat.mod_eq_of_lt hlt, UInt32.ofNat_toNat]
  | ldcR8 bits =>
    refine .single (read_number (.ldcR8 0) (by decide +kernel) (length_littleEndian 8 _) ?_ rest)
    have hlt : bits.toNat < Nat.pow 256 8 := bits.toNat_lt
    rw [fillOperand, ofLittleEndian_littleEndian, Nat.mod_eq_of_lt hlt, UInt64.ofNat_toNat]
  | ldstr s =>
    refine .single (read_token (.ldstr "") (by decide +kernel) (splitOpcode_cons (by decide) _) ?_ rest)
    rw [fillOperand, getElem?_token hpool hstrings (htext s rfl), Option.map_some]
  | ldind t =>
    rw [encode, show Instruction.lines g (.ldind t) = [Instruction.line g (.ldind t)] from rfl, Instruction.line]
    cases hopcodes : indirectOpcodes? (g.type t) with
    | none => exact hobject hknown (by decide +kernel) (by decide) fun _ => rfl
    | some opcodes => exact .single (read_loadThrough (mem_of_indirectOpcodes? hopcodes).1 rest)
  | stind t =>
    rw [encode, show Instruction.lines g (.stind t) = [Instruction.line g (.stind t)] from rfl, Instruction.line]
    cases hopcodes : indirectOpcodes? (g.type t) with
    | none => exact hobject hknown (by decide +kernel) (by decide) fun _ => rfl
    | some opcodes => exact .single (read_storeThrough (mem_of_indirectOpcodes? hopcodes).2 rest)
  | ldobj t => exact hobject hknown (by decide +kernel) (by decide) fun _ => rfl
  | stobj t => exact hobject hknown (by decide +kernel) (by decide) fun _ => rfl
  | element access t =>
    exact hobject hknown (by cases access <;> decide +kernel) (by cases access <;> decide) fun _ => rfl
  | newarr t => exact hobject hknown (by decide +kernel) (by decide) fun _ => rfl
  | box t => exact hobject hknown (by decide +kernel) (by decide) fun _ => rfl
  | unbox t => exact hobject hknown (by decide +kernel) (by decide) fun _ => rfl
  | unboxAny t => exact hobject hknown (by decide +kernel) (by decide) fun _ => rfl
  | castclass t => exact hobject hknown (by decide +kernel) (by decide) fun _ => rfl
  | isinst t => exact hobject hknown (by decide +kernel) (by decide) fun _ => rfl
  | initobj t =>
    exact .single (read_type hg hfit .initobj hknown (by decide +kernel) (splitOpcode_extended 0x15 _)
      (fun _ => rfl) rest)
  | constrained t =>
    exact .single (read_type hg hfit .constrained hknown (by decide +kernel) (splitOpcode_extended 0x16 _)
      (fun _ => rfl) rest)
  | sizeof t =>
    exact .single (read_type hg hfit .sizeof hknown (by decide +kernel) (splitOpcode_extended 0x1C _)
      (fun _ => rfl) rest)
  | instanceField access f =>
    exact .single (read_field hg hfit (.instanceField access) hknown (by cases access <;> decide +kernel)
      (splitOpcode_cons (by cases access <;> decide) _) (fun _ => rfl) rest)
  | staticField access f =>
    exact .single (read_field hg hfit (.staticField access) hknown (by cases access <;> decide +kernel)
      (splitOpcode_cons (by cases access <;> decide) _) (fun _ => rfl) rest)
  | newobj m =>
    exact .single (read_method hg hfit .newobj hknown (by decide +kernel) (splitOpcode_cons (by decide) _)
      (fun _ => rfl) rest)
  | call m =>
    exact .single (read_method hg hfit .call hknown (by decide +kernel) (splitOpcode_cons (by decide) _)
      (fun _ => rfl) rest)
  | callvirt m =>
    exact .single (read_method hg hfit .callvirt hknown (by decide +kernel) (splitOpcode_cons (by decide) _)
      (fun _ => rfl) rest)
  | ldftn m =>
    exact .single (read_method hg hfit .ldftn hknown (by decide +kernel) (splitOpcode_extended 0x06 _)
      (fun _ => rfl) rest)
  | ldvirtftn m =>
    exact .single (read_method hg hfit .ldvirtftn hknown (by decide +kernel) (splitOpcode_extended 0x07 _)
      (fun _ => rfl) rest)

end Names

end Instructions

/-! ## § Earlier graphs -/

/-- A graph that has grown encodes as it did. -/
theorem encode_eq_of_precedes {g g' : TypeGraph} (h : g.Precedes g') {insn : Instruction}
    (hknown : insn.Known g) (pool : StringPool) : encode g pool insn = encode g' pool insn := by
  have hindirect {t : TypeId} (ht : g.Knows t) :
      indirectOpcodes? (g.type t) = indirectOpcodes? (g'.type t) := by
    rw [indirectOpcodes?, indirectOpcodes?, TypeEntry.isReference, TypeEntry.isReference,
      TypeEntry.primitive?, TypeEntry.primitive?, (h.type ht).2.2]
  cases insn with
  | element | newarr | ldobj | stobj | initobj | box | unbox | unboxAny | castclass | isinst | constrained
  | sizeof => rw [encode, encode, (h.type hknown).2.1]
  | ldind | stind => rw [encode, encode, hindirect hknown, (h.type hknown).2.1]
  | instanceField | staticField => rw [encode, encode, (h.field hknown).2]
  | newobj | call | callvirt | ldftn | ldvirtftn => rw [encode, encode, (h.method hknown).2]
  | _ => rfl

end Body

theorem Instruction.Known.precedes {g g' : TypeGraph} (h : g.Precedes g') {insn : Instruction}
    (hknown : insn.Known g) : insn.Known g' := by
  cases insn with
  | element | newarr | ldind | stind | ldobj | stobj | initobj | box | unbox | unboxAny | castclass
  | isinst | constrained | sizeof => exact (h.type hknown).1
  | instanceField | staticField => exact (h.field hknown).1
  | newobj | call | callvirt | ldftn | ldvirtftn => exact (h.method hknown).1
  | _ => trivial

/-- **`Delivery.Over`** — the call is about the graph, as it is or as it was before it grew. -/
def Delivery.Over (g : TypeGraph) : Delivery → Prop
  | .instruction g' insn => insn.Known g' ∧ g'.Grows g
  | _ => True

/-! ## § The pool -/

namespace Body.StringPool

theorem prefix_intern (pool : StringPool) (s : String) :
    pool.strings.toList <+: (pool.intern s).strings.toList := by
  rw [intern]
  split
  · exact List.prefix_rfl
  · rw [Array.toList_push]
    exact List.prefix_append _ _

theorem mem_intern (pool : StringPool) (s : String) : s ∈ (pool.intern s).strings := by
  rw [intern]
  split
  · rename_i hcontains
    exact Array.contains_iff_mem.mp hcontains
  · exact Array.mem_push_self

end Body.StringPool

/-- A pool keeps its strings in their places. -/
theorem Delivery.prefix_intern (pool : Body.StringPool) (call : Delivery) :
    pool.strings.toList <+: (call.intern pool).strings.toList := by
  cases call with
  | instruction g insn =>
    cases insn with
    | ldstr s => exact pool.prefix_intern s
    | _ => exact List.prefix_rfl
  | _ => exact List.prefix_rfl

theorem prefix_poolAfter (pool : Body.StringPool) (calls : List Delivery) :
    pool.strings.toList <+: (poolAfter pool calls).strings.toList := by
  induction calls generalizing pool with
  | nil => exact List.prefix_rfl
  | cons call rest ih => exact (call.prefix_intern pool).trans (ih (call.intern pool))

/-! ## § Finished bodies -/

theorem Branch.map_congr {α β : Type} {f f' : α → β} {b : Branch α} (h : ∀ a ∈ b.targets, f a = f' a) :
    b.map f = b.map f' := by
  cases b with
  | switch targets => exact congrArg Branch.switch (List.map_congr_left h)
  | br a | brtrue a | brfalse a | leave a => rw [Branch.map, Branch.map, h a (List.mem_singleton_self a)]
  | compare c a => rw [Branch.map, Branch.map, h a (List.mem_singleton_self a)]
  | _ => rfl

namespace Body

section Chunks

variable {g : TypeGraph} {strings : List String} {size : Nat} {labels : Registry Label Nat}

/-- The operand of a branch leads back to the offset it was made from. -/
theorem targetAt_displacement {stop place : Nat} {l : Label} (hsmall : size < 2147483648)
    (hstop : stop ≤ size) (hlabel : labels.find? l = some place) (hplace : place ≤ size) :
    targetAt stop (Writer.displacement labels stop l) = place := by
  rw [targetAt, Writer.displacement, hlabel, Option.getD_some,
    ofLittleEndianInt_littleEndianInt (by omega) (by omega)]
  omega

variable (hg : g.Numbered) (hfit : g.RowsFit) (hstrings : strings.length < 16777216)
  (hsmall : size < 2147483648)
include hg hfit hstrings hsmall

/-- **`reads_call`** — the chunk of a call is read back as what the call says, if it ends where the rest of the
code begins. -/
theorem reads_call {call : Delivery} (hover : call.Over g) {pool : StringPool}
    (hpool : (call.intern pool).strings.toList <+: strings)
    (hplaced : ∀ b, call = .branch b → ∀ l ∈ b.targets, ∃ place ≤ size, labels.find? l = some place)
    {stop : Nat} {later : List UInt8} (hstop : stop + later.length = size) (hroom : call.size pool ≤ stop) :
    Reads g strings size (call.bytes pool (Writer.displacement labels stop) ++ later)
      (call.lines g labels) later := by
  cases call with
  | instruction g' insn =>
    obtain ⟨hknown, hgrows⟩ := hover
    rw [Delivery.bytes, encode_eq_of_precedes hgrows.precedes hknown]
    refine reads_encode hg hfit hpool hstrings (hknown.precedes hgrows.precedes) ?_ later
    rintro s rfl
    exact pool.mem_intern s
  | branch b =>
    have hwidth := Writer.length_displacement labels stop
    have hcount : b.targets.length < 4294967296 := by
      have hbytes := Delivery.length_bytes hwidth pool (.branch b)
      rw [Delivery.bytes, List.length_append, length_flatMap hwidth, offsetWidth] at hbytes
      omega
    have hend : size - later.length = stop := by omega
    have htargets : ∀ l ∈ b.targets,
        targetAt stop (Writer.displacement labels stop l) = (labels.find? l).getD 0 := by
      intro l hl
      obtain ⟨place, hle, hlabel⟩ := hplaced b rfl l hl
      rw [targetAt_displacement hsmall (by omega) hlabel hle, hlabel, Option.getD_some]
    refine .single ((read_branch hwidth hcount later).trans ?_)
    rw [hend, Branch.map_congr htargets]
  | label l => exact .done later
  | beginRegion g' region kind tryRegion => exact .done later
  | endRegion region => exact .done later

/-- **`reads_chunks`** — the chunks of calls are read back as what the calls say. -/
theorem reads_chunks {calls : List Delivery} (hover : ∀ call ∈ calls, call.Over g)
    (hplaced : ∀ b, .branch b ∈ calls → ∀ l ∈ b.targets, ∃ place ≤ size, labels.find? l = some place)
    {start : Nat} {pool : StringPool} (hpool : (poolAfter pool calls).strings.toList <+: strings)
    (hsize : start + extent pool calls = size) :
    Reads g strings size (chunks (Writer.displacement labels) start pool calls).flatten
      (codeLines g labels calls) [] := by
  induction calls generalizing start pool with
  | nil => exact .done []
  | cons call rest ih =>
    rw [List.forall_mem_cons] at hover
    have hstop : start + call.size pool + extent (call.intern pool) rest = size := by
      rw [extent] at hsize
      omega
    have hlater := ih hover.2 (fun b hb => hplaced b (List.mem_cons_of_mem _ hb)) hpool hstop
    have hlength := length_flatten_chunks (Writer.length_displacement labels) (start + call.size pool)
      (call.intern pool) rest
    rw [chunks, List.flatten_cons, codeLines, List.flatMap_cons]
    refine Reads.append (reads_call hg hfit hstrings hsmall hover.1 ?_ ?_ ?_ ?_) hlater
    · exact (prefix_poolAfter _ rest).trans hpool
    · rintro b rfl
      exact hplaced b List.mem_cons_self
    · rw [hlength]
      exact hstop
    · exact Nat.le_add_left _ _

end Chunks

namespace Writer

/-- The strings of a finished body are those of the pool. -/
theorem userStrings_finish {w : Writer} {body : MethodBody} (h : w.finish = .ok body) :
    body.userStrings = w.pool.strings := by
  rw [finish_eq] at h
  obtain ⟨code, -, hbody⟩ := Except.bind_eq_ok_iff.mp h
  cases hopen : w.unclosed? with
  | some region =>
    rw [hopen] at hbody
    cases hbody
  | none =>
    rw [hopen] at hbody
    cases hbody
    rfl

variable {g : TypeGraph} (hg : g.Built) (hfit : g.RowsFit)
include hg hfit

/-- **`reads_finish`** — from a finished body, the disassembler reads what the calls say. -/
theorem reads_finish {calls : List Delivery} {w : Writer} {body : MethodBody}
    (hover : ∀ call ∈ calls, call.Over g) (hcalls : Takes Writer.empty calls w)
    (hfinish : w.finish = .ok body) (hsize : body.code.size < 2147483648)
    (hrows : body.userStrings.size < 16777216) :
    Reads g body.userStrings.toList body.code.size body.code.toList (codeLines g w.labels calls) [] := by
  have hwrote := wrote_takes hcalls
  obtain ⟨hcode, hplaced⟩ := finish_chunks hcalls hfinish
  have hextent : body.code.size = extent {} calls := size_finish hcalls hfinish
  have hpool : (poolAfter {} calls).strings.toList <+: body.userStrings.toList := by
    rw [userStrings_finish hfinish, hwrote.pool]
    exact List.prefix_rfl
  rw [hcode]
  refine reads_chunks hg.numbered hfit hrows hsize hover ?_ hpool (by omega)
  intro b hb l hl
  obtain ⟨k, hk⟩ := List.getElem?_of_mem hb
  obtain ⟨place, hplace⟩ := hplaced k b hk l hl
  refine ⟨place, ?_, hplace⟩
  -- A label is marked where some of the calls have been made, so it is not beyond the end.
  rcases (hwrote.labels l place).mp hplace with hnone | ⟨j, -, rfl⟩
  · cases hnone
  · have hle := extent_take_le {} calls j
    rw [hextent]
    exact Nat.le_trans (Nat.le_of_eq (Nat.zero_add _)) hle

/-- **`code_unambiguous`** — calls that are finished into the same bytes and the same strings say the same, line
for line, and give the same literals. -/
theorem code_unambiguous {calls calls' : List Delivery} {w w' : Writer} {body body' : MethodBody}
    (hover : ∀ call ∈ calls, call.Over g) (hover' : ∀ call ∈ calls', call.Over g)
    (hcalls : Takes Writer.empty calls w) (hcalls' : Takes Writer.empty calls' w')
    (hfinish : w.finish = .ok body) (hfinish' : w'.finish = .ok body')
    (hcode : body.code = body'.code) (hstrings : body.userStrings = body'.userStrings)
    (hsize : body.code.size < 2147483648) (hrows : body.userStrings.size < 16777216) :
    codeLines g w.labels calls = codeLines g w'.labels calls' ∧
      calls.filterMap Delivery.literal? = calls'.filterMap Delivery.literal? := by
  have hread := reads_finish hg hfit hover hcalls hfinish hsize hrows
  have hread' := reads_finish hg hfit hover' hcalls' hfinish' (hcode ▸ hsize) (hstrings ▸ hrows)
  rw [← hcode, ← hstrings] at hread'
  have hlines := hread.unique hread'
  refine ⟨hlines, ?_⟩
  rw [← literals_codeLines g w.labels calls, ← literals_codeLines g w'.labels calls', hlines]

end Writer

end Body

namespace Sample

open Body (Writer MethodBody)

/-- A loop that converts, loads and boxes. -/
def spin : List Delivery :=
  [.label ⟨0⟩, .instruction graph (.ldstr "spin"), .instruction graph (.conv .f32 true true),
    .instruction graph (.ldind system.char), .instruction graph (.box owner.1), .branch (.br ⟨0⟩)]

/-- The same code, asked for in other ways and from before the graph had its method. -/
def whirl : List Delivery :=
  [.label ⟨7⟩, .label ⟨3⟩, .instruction owner.2 (.ldstr "spin"), .instruction owner.2 (.conv .f64 false true),
    .instruction owner.2 (.conv .f32 false false), .instruction owner.2 (.ldind system.uint16),
    .instruction graph (.box owner.1), .branch (.br ⟨3⟩)]

/-- The writer after calls, and the body it is finished into. -/
def finished (calls : List Delivery) : Option (Writer × MethodBody) :=
  match deliver calls Writer.empty with
  | .ok _ w => w.finish.toOption.map (w, ·)
  | .error _ _ => none

theorem finished_cases {calls : List Delivery} {w : Writer} {body : MethodBody}
    (h : finished calls = some (w, body)) : Takes Writer.empty calls w ∧ w.finish = .ok body := by
  rw [finished] at h
  cases hcalls : deliver calls Writer.empty with
  | error e w' =>
    rw [hcalls] at h
    cases h
  | ok _ w' =>
    rw [hcalls] at h
    obtain ⟨body', hbody, heq⟩ := Option.map_eq_some_iff.mp h
    cases heq
    cases hfinish : w.finish with
    | error e =>
      rw [hfinish] at hbody
      cases hbody
    | ok body' =>
      rw [hfinish] at hbody
      cases hbody
      exact ⟨hcalls, rfl⟩

theorem unambiguous_spin_whirl : ∃ w w' body body', finished spin = some (w, body) ∧
    finished whirl = some (w', body') ∧ body.code = body'.code ∧
    codeLines graph w.labels spin = codeLines graph w'.labels whirl ∧
    spin.filterMap Delivery.literal? = whirl.filterMap Delivery.literal? := by
  have hgrows : owner.2.Grows graph := .addMethod owner.1 "Run" [] none .static .refl
  have hknown : graph.Knows system.char ∧ graph.Knows owner.1 ∧ owner.2.Knows system.uint16 := by
    decide +kernel
  have hover : ∀ call ∈ spin, call.Over graph := by
    simp only [spin, List.forall_mem_cons]
    exact ⟨trivial, ⟨trivial, .refl⟩, ⟨trivial, .refl⟩, ⟨hknown.1, .refl⟩, ⟨hknown.2.1, .refl⟩, trivial,
      List.forall_mem_nil _⟩
  have hover' : ∀ call ∈ whirl, call.Over graph := by
    simp only [whirl, List.forall_mem_cons]
    exact ⟨trivial, trivial, ⟨trivial, hgrows⟩, ⟨trivial, hgrows⟩, ⟨trivial, hgrows⟩,
      ⟨hknown.2.2, hgrows⟩, ⟨hknown.2.1, .refl⟩, trivial, List.forall_mem_nil _⟩
  have hrows : graph.definitionRows < 16777216 ∧ graph.specificationRows < 16777216 ∧
      graph.fields.size < 16777216 ∧ graph.methods.size < 16777216 := by
    decide +kernel
  have hfit : graph.RowsFit := ⟨hrows.1, hrows.2.1, hrows.2.2.1, hrows.2.2.2⟩
  have hsame : (finished spin).map (fun done => (done.2.code, done.2.userStrings)) =
      some (#[0x72, 1, 0, 0, 0x70, 0x76, 0x6B, 0x49, 0x8C, 21, 0, 0, 2, 0x38, 0xEE, 0xFF, 0xFF, 0xFF],
        #["spin"]) := by
    decide +kernel
  have hsame' : (finished whirl).map (fun done => (done.2.code, done.2.userStrings)) =
      some (#[0x72, 1, 0, 0, 0x70, 0x76, 0x6B, 0x49, 0x8C, 21, 0, 0, 2, 0x38, 0xEE, 0xFF, 0xFF, 0xFF],
        #["spin"]) := by
    decide +kernel
  obtain ⟨⟨w, body⟩, hspin, hbody⟩ := Option.map_eq_some_iff.mp hsame
  obtain ⟨⟨w', body'⟩, hwhirl, hbody'⟩ := Option.map_eq_some_iff.mp hsame'
  obtain ⟨hcode, hstrings⟩ := Prod.mk.inj hbody
  obtain ⟨hcode', hstrings'⟩ := Prod.mk.inj hbody'
  dsimp only at hcode hstrings hcode' hstrings'
  obtain ⟨hcalls, hfinish⟩ := finished_cases hspin
  obtain ⟨hcalls', hfinish'⟩ := finished_cases hwhirl
  refine ⟨w, w', body, body', hspin, hwhirl, hcode.trans hcode'.symm, ?_⟩
  refine Writer.code_unambiguous built hfit hover hover' hcalls hcalls' hfinish hfinish'
    (hcode.trans hcode'.symm) (hstrings.trans hstrings'.symm) ?_ ?_
  · rw [hcode]
    decide
  · rw [hstrings]
    decide

end Sample

end ManagedCode
