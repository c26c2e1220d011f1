/-
# ManagedCode.Proofs.Body.Guards — a writer within the range of its numbers.

The writer counts in natural numbers, where no sum is too large, a difference stops at zero and bytes beyond
the end of the code are dropped without a word.  What it stands for counts in words of 32 bits, writes opcodes
of 8 and fills in slices of its code.  So every operation that could go wrong there is made here once more
behind a guard, which answers with a `Trap` where the result is not the one that was meant:

* an offset, the row of a string, the length of a jump table and the end of it is a word;
* an opcode that is counted from another one, or a constant in one byte, is a byte;
* the block and the handler of a clause end no earlier than they start;
* what a branch leads over is a signed word, and its operand lies within the code.

Where offsets are in order (`Ordered`) none of the guards is hit, as long as the code has fewer than 2^31 bytes:
call by call (`Ordered.guardedAnswer_eq`), in a whole run (`Ordered.guardedAttempt_eq`) and when it is finished.
-/
import ManagedCode.Proofs.Body.Order

namespace ManagedCode.Body

/-! ## § Guards -/

/-- **`Trap`** — what a guard answers with. -/
inductive Trap
  /-- The number is none of its type. -/
  | range (value : Int)
  /-- The code ends before the bytes that were asked for. -/
  | bounds (position : Nat)
  deriving DecidableEq, Inhabited

/-- An operation behind guards. -/
abbrev Guarded := Except Trap

/-- A guard that lets a result pass. -/
theorem Guarded.ok_bind {α β : Type} (a : α) (f : α → Guarded β) : Except.ok a >>= f = f a := rfl

/-- The number, if so many bits have room for it. -/
def unsigned (bits : Nat) (value : Int) : Guarded Nat :=
  if 0 ≤ value ∧ value < Nat.pow 2 bits then .ok value.toNat else .error (.range value)

/-- The number, if so many bits have room for it and its sign. -/
def signed (bits : Nat) (value : Int) : Guarded Int :=
  let half : Int := Nat.pow 2 (bits - 1)
  if -half ≤ value ∧ value < half then .ok value else .error (.range value)

theorem unsigned_ok_iff {bits : Nat} {value : Int} {n : Nat} :
    unsigned bits value = .ok n ↔ value = n ∧ n < Nat.pow 2 bits := by
  rw [unsigned]
  generalize Nat.pow 2 bits = bound
  split
  case isTrue hrange =>
    rw [Except.ok.injEq]
    omega
  case isFalse hrange =>
    exact iff_of_false nofun (by omega)

theorem signed_ok_iff {bits : Nat} {value i : Int} :
    signed bits value = .ok i ↔
      value = i ∧ -(Nat.pow 2 (bits - 1) : Int) ≤ i ∧ i < (Nat.pow 2 (bits - 1) : Int) := by
  rw [signed]
  generalize Nat.pow 2 (bits - 1) = half
  split
  case isTrue hrange =>
    rw [Except.ok.injEq]
    omega
  case isFalse hrange =>
    exact iff_of_false nofun (by omega)

-- Unfolded, a guard on an offset that is not known is compared with its bound step by step.
attribute [irreducible] unsigned signed

theorem unsigned_word {value : Int} {n : Nat} (hvalue : value = n) (hn : n < 4294967296) :
    unsigned 32 value = .ok n := unsigned_ok_iff.mpr ⟨hvalue, hn⟩

theorem unsigned_byte {value : Int} {n : Nat} (hvalue : value = n) (hn : n < 256) :
    unsigned 8 value = .ok n := unsigned_ok_iff.mpr ⟨hvalue, hn⟩

theorem signed_word {value : Int} (hlow : -2147483648 ≤ value) (hhigh : value < 2147483648) :
    signed 32 value = .ok value := signed_ok_iff.mpr ⟨rfl, hlow, hhigh⟩

theorem signed_byte {value : Int} (hlow : -128 ≤ value) (hhigh : value < 128) :
    signed 8 value = .ok value := signed_ok_iff.mpr ⟨rfl, hlow, hhigh⟩

/-! ## § Guarded encodings -/

/-- The form with the index in a byte, if there is room. -/
def IndexedForms.guardedSpellOut (forms : IndexedForms) (index : UInt16) : Guarded (List UInt8) :=
  if index ≤ 255 then do
    let byte ← unsigned 8 index.toNat
    return [forms.byteIndex, UInt8.ofNat byte]
  else .ok (forms.spellOut index)

/-- The form whose opcode is counted from the one for index 0. -/
def IndexedForms.guardedEncode (forms : IndexedForms) (index : UInt16) : Guarded (List UInt8) :=
  match forms.short with
  | some base =>
    if index ≤ 3 then do
      let byte ← unsigned 8 index.toNat
      let opcode ← unsigned 8 (base.toNat + byte)
      return [UInt8.ofNat opcode]
    else forms.guardedSpellOut index
  | none => forms.guardedSpellOut index

/-- A constant: as an opcode, which is a word before it is a byte, in one byte or in four. -/
def guardedEncodeInt (value : Int32) : Guarded (List UInt8) :=
  let i := value.toInt
  if -1 ≤ i && i ≤ 8 then do
    let word ← signed 32 (0x16 + i)
    let opcode ← unsigned 8 word
    return littleEndian 1 opcode
  else if -128 ≤ i && i ≤ 127 then do
    let byte ← signed 8 i
    return 0x1F :: littleEndianInt 1 byte
  else .ok (0x20 :: littleEndianInt 4 i)

/-- The token of a string, whose row is a word. -/
def StringPool.guardedToken (pool : StringPool) (s : String) : Guarded UInt32 := do
  let row ← unsigned 32 (pool.strings.toList.idxOf s + 1)
  return 0x70000000 ||| UInt32.ofNat row

/-- The bytes of a straight-line instruction; all but these are written as they are. -/
def guardedEncode (g : TypeGraph) (pool : StringPool) : Instruction → Guarded (List UInt8)
  | .argument access index => (argumentForms access).guardedEncode index
  | .localVariable access index => (localForms access).guardedEncode index
  | .ldcI4 value => guardedEncodeInt value
  | .ldstr s => do
    let token ← pool.guardedToken s
    return withToken 0x72 token
  | insn => .ok (encode g pool insn)

theorem IndexedForms.guardedSpellOut_eq (forms : IndexedForms) (index : UInt16) :
    forms.guardedSpellOut index = .ok (forms.spellOut index) := by
  rw [guardedSpellOut]
  split
  case isTrue hle =>
    have hbyte : index.toNat < 256 := Nat.lt_succ_of_le (UInt16.le_iff_toNat_le.mp hle)
    rw [unsigned_byte rfl hbyte, spellOut, if_pos hle]
    rfl
  case isFalse => rfl

/-- The opcodes of small indices lie below the extension byte. -/
theorem IndexedForms.guardedEncode_eq {forms : IndexedForms} (hshort : ∀ base ∈ forms.short, base.toNat ≤ 252)
    (index : UInt16) : forms.guardedEncode index = .ok (forms.encode index) := by
  rw [guardedEncode.eq_1, encode.eq_1]
  cases hforms : forms.short with
  | none => exact forms.guardedSpellOut_eq index
  | some base =>
    dsimp only
    split
    case isFalse => exact forms.guardedSpellOut_eq index
    case isTrue hle =>
      have hbase := hshort base hforms
      have hindex : index.toNat ≤ 3 := UInt16.le_iff_toNat_le.mp hle
      have hopcode : UInt8.ofNat (base.toNat + index.toNat) = base + index.toUInt8 := by
        rw [← UInt8.toNat_inj, UInt8.toNat_add, UInt16.toNat_toUInt8, UInt8.toNat_ofNat', Nat.add_mod_mod]
      have hsmall : unsigned 8 (index.toNat : Int) = .ok index.toNat := unsigned_byte rfl (by omega)
      have hsum : unsigned 8 ((base.toNat : Int) + index.toNat) = .ok (base.toNat + index.toNat) :=
        unsigned_byte (Int.natCast_add _ _).symm (by omega)
      rw [hsmall, Guarded.ok_bind, hsum, Guarded.ok_bind, hopcode]
      rfl

theorem guardedEncodeInt_eq (value : Int32) : guardedEncodeInt value = .ok (encodeInt value) := by
  rw [guardedEncodeInt, encodeInt]
  split
  case isTrue hopcode =>
    rw [Bool.and_eq_true, decide_eq_true_iff, decide_eq_true_iff] at hopcode
    have hmod : (0x16 + value.toInt) % (256 : Nat) = 0x16 + value.toInt :=
      Int.emod_eq_of_lt (by omega) (by omega)
    have hbytes : littleEndianInt 1 (0x16 + value.toInt) = littleEndian 1 (0x16 + value.toInt).toNat :=
      congrArg (fun i : Int => littleEndian 1 i.toNat) hmod
    have hword : signed 32 (0x16 + value.toInt) = .ok (0x16 + value.toInt) :=
      signed_word (by omega) (by omega)
    have hbyte : unsigned 8 (0x16 + value.toInt) = .ok (0x16 + value.toInt).toNat :=
      unsigned_byte (by omega) (by omega)
    rw [hword, Guarded.ok_bind, hbyte, hbytes]
    rfl
  case isFalse =>
    split
    case isFalse => rfl
    case isTrue hbyte =>
      rw [Bool.and_eq_true, decide_eq_true_iff, decide_eq_true_iff] at hbyte
      rw [signed_byte (by omega) (by omega)]
      rfl

theorem StringPool.guardedToken_eq {pool : StringPool} (hpool : pool.strings.size + 1 < 4294967296) (s : String) :
    pool.guardedToken s = .ok (pool.token s) := by
  have hrow : pool.strings.toList.idxOf s ≤ pool.strings.size := List.idxOf_le_length
  have hword : unsigned 32 ((pool.strings.toList.idxOf s : Int) + 1) = .ok (pool.strings.toList.idxOf s + 1) :=
    unsigned_word (Int.natCast_succ _).symm (by omega)
  rw [guardedToken, hword]
  rfl

/-- **`guardedEncode_eq`** — the bytes of an instruction are what was meant. -/
theorem guardedEncode_eq (g : TypeGraph) {pool : StringPool} (hpool : pool.strings.size + 1 < 4294967296)
    (insn : Instruction) : guardedEncode g pool insn = .ok (encode g pool insn) := by
  cases insn with
  | argument access index =>
    refine IndexedForms.guardedEncode_eq (fun base hbase => ?_) index
    cases access <;> cases hbase
    decide
  | localVariable access index =>
    refine IndexedForms.guardedEncode_eq (fun base hbase => ?_) index
    cases access <;> cases hbase <;> decide
  | ldcI4 value => exact guardedEncodeInt_eq value
  | ldstr s =>
    rw [guardedEncode, StringPool.guardedToken_eq hpool]
    rfl
  | _ => rfl

namespace Writer

variable {w : Writer}

/-! ## § Guarded calls -/

/-- An instruction. -/
def guardedEmit (g : TypeGraph) (insn : Instruction) (w : Writer) : Guarded Writer := do
  let pool := w.pool.internOperand insn
  let bytes ← guardedEncode g pool insn
  return { w with pool, code := w.code ++ bytes }

/-- A branch, whose end is counted from where its operands start. -/
def guardedEmitBranch (branch : Branch Label) (w : Writer) : Guarded Writer := do
  let head := branchHead branch
  let blanks := List.replicate (offsetWidth * branch.targets.length) 0
  let table ← unsigned 32 (w.offset + head.length)
  let count ← unsigned 32 branch.targets.length
  let room ← unsigned 32 (offsetWidth * count)
  let base ← unsigned 32 (table + room)
  return { w with
    code := w.code ++ (head ++ blanks)
    fixups := w.fixups ++ fixupsAt table base branch.targets }

/-- The clause of a handler, with lengths that are no less than nothing. -/
def guardedClauseOf (handler : OpenHandler) (start stop : Nat) (w : Writer) : Guarded ExceptionClause := do
  let tryLength ← unsigned 32 (stop - start)
  let handlerLength ← unsigned 32 (w.offset - handler.start)
  return { w.clauseOf handler start stop with tryLength, handlerLength }

/-- Closes an open protected block or else an open handler. -/
def guardedEndRegion (region : Region) (w : Writer) : Guarded (Option EmitError × Writer) :=
  match w.blocks.find? region, w.handlers.find? region with
  | some _, _ => .ok (none, { w with blocks := w.blocks.erase region })
  | none, none => .ok (some (.nesting (.notOpen region)), w)
  | none, some handler =>
    let closed := { w with handlers := w.handlers.erase region }
    if handler.isFilterBlock then .ok (none, closed)
    else
      match w.blocks.find? handler.tryRegion with
      | some ⟨start, some stop⟩ => do
        let clause ← w.guardedClauseOf handler start stop
        return (none, { closed with clauses := w.clauses.push clause })
      | _ => .ok (some (.nesting (.notProtectedBlock handler.tryRegion)), closed)

/-- **`guardedAnswer`** — one call.  Labels and regions are entered at the offset, which is all that placing a
label or opening a region computes. -/
def guardedAnswer : Delivery → Writer → Guarded (Option EmitError × Writer)
  | .instruction g insn, w => (w.guardedEmit g insn).map fun w' => (none, w')
  | .branch b, w => (w.guardedEmitBranch b).map fun w' => (none, w')
  | .endRegion region, w => unsigned 32 w.offset >>= fun _ => w.guardedEndRegion region
  | call, w => (unsigned 32 w.offset).map fun _ => answer call w

/-- **`guardedAttempt`** — calls that are made one after the other, whether they are refused or not. -/
def guardedAttempt : List Delivery → Writer → Guarded (List (Option EmitError) × Writer)
  | [], w => .ok ([], w)
  | call :: rest, w => do
    let (first, w') ← guardedAnswer call w
    let (others, w'') ← guardedAttempt rest w'
    return (first :: others, w'')

theorem guardedEmitBranch_eq {b : Branch Label} (hsize : (w.emitBranch b).offset < 2147483648) :
    w.guardedEmitBranch b = .ok (w.emitBranch b) := by
  have hmade : (Delivery.branch b).make w = .ok () (w.emitBranch b) := rfl
  rw [offset_make hmade, Delivery.size_branch] at hsize
  have htable : unsigned 32 ((w.offset : Int) + (branchHead b).length) =
      .ok (w.offset + (branchHead b).length) :=
    unsigned_word (Int.natCast_add _ _).symm (by omega)
  have hcount : unsigned 32 (b.targets.length : Int) = .ok b.targets.length :=
    unsigned_word rfl (by rw [offsetWidth] at hsize; omega)
  have hroom : unsigned 32 ((offsetWidth : Int) * b.targets.length) = .ok (offsetWidth * b.targets.length) :=
    unsigned_word (Int.natCast_mul _ _).symm (by omega)
  have hbase : unsigned 32 (((w.offset + (branchHead b).length : Nat) : Int) +
      (offsetWidth * b.targets.length : Nat)) =
        .ok (w.offset + (branchHead b).length + offsetWidth * b.targets.length) :=
    unsigned_word (Int.natCast_add _ _).symm (by omega)
  rw [guardedEmitBranch, htable, Guarded.ok_bind, hcount, Guarded.ok_bind, hroom, Guarded.ok_bind, hbase,
    Guarded.ok_bind, emitBranch, List.length_replicate]
  rfl

theorem Ordered.guardedEmit_eq (h : w.Ordered) {g : TypeGraph} {insn : Instruction}
    (hsize : (w.emit g insn).offset < 2147483648) : w.guardedEmit g insn = .ok (w.emit g insn) := by
  have hstrings : 5 * (w.pool.internOperand insn).strings.size ≤ (w.emit g insn).offset :=
    (h.emit g insn).strings
  rw [guardedEmit, guardedEncode_eq g (by omega)]
  rfl

theorem Ordered.guardedClauseOf_eq (h : w.Ordered) {region : Region} {handler : OpenHandler} {start stop : Nat}
    (hhandler : w.handlers.find? region = some handler)
    (hblock : w.blocks.find? handler.tryRegion = some ⟨start, some stop⟩) (hsize : w.offset < 2147483648) :
    w.guardedClauseOf handler start stop = .ok (w.clauseOf handler start stop) := by
  have hopen := (h.handlers hhandler).start
  obtain ⟨hstart, hstop⟩ : start ≤ stop ∧ stop ≤ w.offset := (h.blocks hblock).stop stop rfl
  have htry : unsigned 32 ((stop : Int) - start) = .ok (stop - start) :=
    unsigned_word (Int.natCast_sub hstart).symm (by omega)
  have hhandled : unsigned 32 ((w.offset : Int) - handler.start) = .ok (w.offset - handler.start) :=
    unsigned_word (Int.natCast_sub hopen).symm (by omega)
  rw [guardedClauseOf, htry, Guarded.ok_bind, hhandled]
  rfl

theorem Ordered.guardedEndRegion_eq (h : w.Ordered) {region : Region} (hsize : w.offset < 2147483648) :
    w.guardedEndRegion region = .ok (Writer.answer (.endRegion region) w) := by
  simp only [guardedEndRegion, Writer.answer, Delivery.make, CodeSink.endRegion, Writer.endRegion, endHandler]
  cases hblock : w.blocks.find? region with
  | some block => rfl
  | none =>
    cases hhandler : w.handlers.find? region with
    | none => rfl
    | some handler =>
      dsimp only
      cases handler.isFilterBlock with
      | true => rfl
      | false =>
        cases howner : w.blocks.find? handler.tryRegion with
        | none => rfl
        | some block =>
          obtain ⟨start, stop⟩ := block
          cases stop with
          | none => rfl
          | some stop =>
            dsimp only
            rw [h.guardedClauseOf_eq hhandler howner hsize]
            rfl

/-- The guards are there: a block that ends before it starts has no length. -/
example : guardedEndRegion ⟨1⟩
    { blocks := Registry.empty.insert ⟨0⟩ { start := 5, stop := some 2 }
      handlers := Registry.empty.insert ⟨1⟩ { tryRegion := ⟨0⟩, kind := .finallyClause, start := 0 } } =
    .error (.range (-3)) := by
  decide +kernel

/-- **`Ordered.guardedAnswer_eq`** — where offsets are in order, a call hits no guard. -/
theorem Ordered.guardedAnswer_eq (h : w.Ordered) {call : Delivery}
    (hsize : (Writer.answer call w).2.offset < 2147483648) :
    guardedAnswer call w = .ok (Writer.answer call w) := by
  have hoffset := Nat.lt_of_le_of_lt (offset_le_answer call w) hsize
  have hword : unsigned 32 (w.offset : Int) = .ok w.offset := unsigned_word rfl (by omega)
  cases call with
  | instruction g insn => exact congrArg (Except.map fun w' => (none, w')) (h.guardedEmit_eq hsize)
  | branch b => exact congrArg (Except.map fun w' => (none, w')) (guardedEmitBranch_eq hsize)
  | endRegion region =>
    rw [guardedAnswer, hword]
    exact h.guardedEndRegion_eq hoffset
  | label l => exact congrArg (Except.map fun _ => Writer.answer (.label l) w) hword
  | beginRegion g region kind tryRegion =>
    exact congrArg (Except.map fun _ => Writer.answer (.beginRegion g region kind tryRegion) w) hword

/-- **`Ordered.guardedAttempt_eq`** — and neither do any number of them. -/
theorem Ordered.guardedAttempt_eq (h : w.Ordered) {calls : List Delivery}
    (hsize : (Writer.attempt calls w).2.offset < 2147483648) :
    guardedAttempt calls w = .ok (Writer.attempt calls w) := by
  induction calls generalizing w with
  | nil => rfl
  | cons call rest ih =>
    have hfirst := Nat.lt_of_le_of_lt (offset_le_attempt rest (Writer.answer call w).2) hsize
    rw [guardedAttempt, h.guardedAnswer_eq hfirst, Guarded.ok_bind]
    dsimp only
    rw [ih (h.answer call) hsize]
    rfl

/-! ## § Guarded finishing -/

/-- Fills in what a branch leads over. -/
def guardedFill (target : Nat) (code : Array UInt8) (fixup : Fixup) : Guarded (Array UInt8) := do
  let relative ← signed 32 (target - fixup.base)
  if fixup.position + offsetWidth ≤ code.size then
    return overwrite code fixup.position (littleEndianInt offsetWidth relative)
  else throw (.bounds fixup.position)

/-- Fills in all of them, up to the first label that has no place. -/
def guardedResolve (labels : Registry Label Nat) :
    List Fixup → Array UInt8 → Guarded (Except EmitError (Array UInt8))
  | [], code => .ok (.ok code)
  | fixup :: rest, code =>
    match labels.find? fixup.target with
    | some target => guardedFill target code fixup >>= guardedResolve labels rest
    | none => .ok (.error (.unknownLabel fixup.target))

/-- **`guardedFinish`** — the method body, or why there is none. -/
def guardedFinish (w : Writer) : Guarded (Except EmitError MethodBody) := do
  let filled ← guardedResolve w.labels w.fixups.toList w.code
  return filled >>= fun code =>
    match w.unclosed? with
    | some region => .error (.nesting (.neverClosed region))
    | none => .ok { code, clauses := w.clauses, userStrings := w.pool.strings }

theorem size_overwrite (code : Array UInt8) (position : Nat) (bytes : List UInt8) :
    (overwrite code position bytes).size = code.size := by
  induction bytes generalizing code position with
  | nil => rfl
  | cons byte rest ih => rw [overwrite, ih, Array.size_setIfInBounds]

theorem guardedResolve_eq {labels : Registry Label Nat} {fixups : List Fixup} {code : Array UInt8}
    (hlabels : labels.All (· ≤ code.size)) (hfixups : ∀ fixup ∈ fixups, fixup.Within code.size)
    (hsize : code.size < 2147483648) :
    guardedResolve labels fixups code = .ok (fixups.foldlM (resolve labels) code) := by
  induction fixups generalizing code with
  | nil => rfl
  | cons fixup rest ih =>
    obtain ⟨hfixup, hrest⟩ := List.forall_mem_cons.mp hfixups
    rw [guardedResolve, List.foldlM_cons, resolve]
    cases hfind : labels.find? fixup.target with
    | none => rfl
    | some target =>
      have hwithin : fixup.position + offsetWidth ≤ code.size := Nat.le_trans hfixup.operand hfixup.base
      obtain ⟨hlow, hhigh⟩ := hfixup.relative_range (hlabels hfind) hsize
      have hfill : guardedFill target code fixup = .ok (overwrite code fixup.position
          (littleEndianInt offsetWidth ((target : Int) - fixup.base))) := by
        rw [guardedFill, signed_word hlow hhigh, Guarded.ok_bind, if_pos hwithin]
        rfl
      have hkept := size_overwrite code fixup.position
        (littleEndianInt offsetWidth ((target : Int) - fixup.base))
      rw [← hkept] at hlabels hrest hsize
      dsimp only
      rw [hfill, Guarded.ok_bind]
      exact ih hlabels hrest hsize

/-- **`Ordered.guardedFinish_eq`** — where offsets are in order, finishing hits no guard. -/
theorem Ordered.guardedFinish_eq (h : w.Ordered) (hsize : w.offset < 2147483648) :
    w.guardedFinish = .ok w.finish := by
  have hfixups : ∀ fixup ∈ w.fixups.toList, fixup.Within w.code.size :=
    fun fixup hmem => h.fixups fixup (Array.mem_toList_iff.mp hmem)
  rw [guardedFinish, guardedResolve_eq h.labels hfixups hsize, Guarded.ok_bind, finish_eq, Array.foldlM_toList]
  rfl

/-! ## § No traps -/

/-- **`InRange`** — what the guards of a writer come down to. -/
structure InRange (w : Writer) : Prop where
  /-- The lengths that closing a region computes. -/
  lengths : ∀ region handler start stop, w.handlers.find? region = some handler →
    w.blocks.find? handler.tryRegion = some ⟨start, some stop⟩ → start ≤ stop ∧ handler.start ≤ w.offset
  /-- The clauses that were left. -/
  clauses : ∀ clause ∈ w.clauses, clause.Within w.code.size
  /-- The operands that finishing fills in. -/
  operands : ∀ fixup ∈ w.fixups, fixup.position + offsetWidth ≤ w.code.size
  apart : w.fixups.toList.Pairwise fun first second => first.position + offsetWidth ≤ second.position
  /-- What it fills in. -/
  relative : ∀ fixup ∈ w.fixups, ∀ place, w.labels.find? fixup.target = some place →
    -2147483648 ≤ (place : Int) - fixup.base ∧ (place : Int) - fixup.base < 2147483648

theorem Ordered.inRange (h : w.Ordered) (hsize : w.offset < 2147483648) : w.InRange where
  lengths _ _ _ stop hhandler hblock :=
    ⟨((h.blocks hblock).stop stop rfl).1, (h.handlers hhandler).start⟩
  clauses := h.clauses
  operands fixup hfixup := Nat.le_trans (h.fixups fixup hfixup).operand (h.fixups fixup hfixup).base
  apart := h.apart
  relative fixup hfixup _ hplace := (h.fixups fixup hfixup).relative_range (h.labels hplace) hsize

/-- **`untrapped`** — whatever calls are made on a fresh writer, in whatever order and whether they are refused
or not: as long as the code has fewer than 2^31 bytes, neither they nor finishing ever hit a guard. -/
theorem untrapped (calls : List Delivery) (hsize : (attempt calls Writer.empty).2.offset < 2147483648) :
    guardedAttempt calls Writer.empty = .ok (attempt calls Writer.empty) ∧
      (attempt calls Writer.empty).2.guardedFinish = .ok (attempt calls Writer.empty).2.finish ∧
      (attempt calls Writer.empty).2.InRange := by
  have hordered := Ordered.empty.attempt calls
  exact ⟨Ordered.empty.guardedAttempt_eq hsize, hordered.guardedFinish_eq hsize, hordered.inRange hsize⟩

namespace Disorder

/-- A block is opened a second time while its filter block is pending, and closed before its second handler;
labels are placed twice; what is no block gets a handler, and what is no region is closed. -/
def calls : List Delivery :=
  [.label ⟨0⟩, .beginRegion .empty ⟨0⟩ .tryBlock none, .instruction .empty (.ldstr "a"),
    .branch (.switch [⟨0⟩, ⟨1⟩]), .beginRegion .empty ⟨1⟩ .filterBlock (some ⟨0⟩), .instruction .empty .nop,
    .endRegion ⟨1⟩, .beginRegion .empty ⟨0⟩ .tryBlock none, .label ⟨1⟩, .instruction .empty (.ldcI4 8),
    .beginRegion .empty ⟨2⟩ (.catchHandler ⟨0⟩) (some ⟨0⟩), .branch (.leave ⟨1⟩), .label ⟨1⟩, .endRegion ⟨2⟩,
    .beginRegion .empty ⟨3⟩ .finallyHandler (some ⟨0⟩), .endRegion ⟨0⟩, .endRegion ⟨3⟩,
    .beginRegion .empty ⟨4⟩ .faultHandler (some ⟨0⟩), .endRegion ⟨4⟩]

/-- Four calls are refused, and there is a body all the same.  Its filter starts before its block does. -/
theorem untrapped_calls : (attempt calls Writer.empty).2.offset < 2147483648 ∧
    guardedAttempt calls Writer.empty = .ok (attempt calls Writer.empty) ∧
    (attempt calls Writer.empty).2.InRange ∧
    (attempt calls Writer.empty).1.filterMap id =
      [.duplicateLabel ⟨1⟩, .nesting (.notProtectedBlock ⟨0⟩), .nesting (.notProtectedBlock ⟨0⟩),
        .nesting (.notOpen ⟨4⟩)] ∧
    (attempt calls Writer.empty).2.guardedFinish.map (Except.map fun body => (body.code, body.clauses)) =
      .ok (.ok (#[0x72, 1, 0, 0, 0x70, 0x45, 2, 0, 0, 0, 0xEE, 0xFF, 0xFF, 0xFF, 7, 0, 0, 0, 0, 0x1E,
          0xDD, 0, 0, 0, 0],
        #[{ kind := .filterClause, tryOffset := 19, tryLength := 1, handlerOffset := 20, handlerLength := 5,
            classToken := 0, filterOffset := 18 }])) := by
  have hsize : (attempt calls Writer.empty).2.offset < 2147483648 := by decide +kernel
  obtain ⟨hcalls, hfinish, hrange⟩ := untrapped calls hsize
  rw [hfinish]
  refine ⟨hsize, hcalls, hrange, ?_, ?_⟩
  · decide +kernel
  · decide +kernel

end Disorder

end Writer

end ManagedCode.Body
