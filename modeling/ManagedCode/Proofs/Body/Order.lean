/-
# ManagedCode.Proofs.Body.Order — how the offsets of a writer lie to each other.

A writer enters offsets in five books, reads them back much later, and subtracts some of them from others.  A
caller may open a region twice, place a label twice, close a block before its handlers and go on after a
refusal, so an entry may well be out of date.  But every entry is made at the offset of its time and the code
only grows: no offset in the books lies beyond the end of the code (`Ordered`), an entry that is made from
others keeps their order, and the operands of a branch lie behind all that were written before.  No call
disturbs that, be it taken or refused (`Ordered.attempt`).
-/
import ManagedCode.Proofs.Body.Offsets
import ManagedCode.Proofs.Body.Rejection

namespace ManagedCode.Body

/-! ## § Entries -/

namespace Registry

variable {κ ν : Type} [DecidableEq κ] {r : Registry κ ν} {p q : ν → Prop}

/-- Every key is bound to such a value. -/
def All (p : ν → Prop) (r : Registry κ ν) : Prop := ∀ ⦃k v⦄, r.find? k = some v → p v

theorem All.empty : All p (Registry.empty : Registry κ ν) := fun _ _ => nofun

theorem All.insert (h : r.All p) {v : ν} (hv : p v) (k : κ) : (r.insert k v).All p := by
  intro k' v' hfound
  rw [find?_insert] at hfound
  split at hfound
  · cases hfound
    exact hv
  · exact h hfound

theorem All.erase (h : r.All p) (k : κ) : (r.erase k).All p := by
  intro k' v' hfound
  rw [find?_erase] at hfound
  split at hfound
  · cases hfound
  · exact h hfound

theorem All.imp (h : r.All p) (hpq : ∀ v, p v → q v) : r.All q := fun _ v hfound => hpq v (h hfound)

end Registry

/-- The block starts no later than the offset, and ends between the two if it has ended. -/
structure ProtectedBlock.Within (limit : Nat) (block : ProtectedBlock) : Prop where
  start : block.start ≤ limit
  stop : ∀ stop ∈ block.stop, block.start ≤ stop ∧ stop ≤ limit

/-- The handler starts no later than the offset, and behind its filter block if it has one. -/
structure OpenHandler.Within (limit : Nat) (handler : OpenHandler) : Prop where
  start : handler.start ≤ limit
  filter : ∀ filter ∈ handler.filterOffset, filter ≤ handler.start

/-- The clause is about code before the offset. -/
structure ExceptionClause.Within (limit : Nat) (clause : ExceptionClause) : Prop where
  block : clause.tryOffset + clause.tryLength ≤ limit
  handler : clause.handlerOffset + clause.handlerLength ≤ limit
  filter : clause.filterOffset ≤ clause.handlerOffset

/-- The operand is part of a branch that ends no later than the offset. -/
structure Fixup.Within (limit : Nat) (fixup : Fixup) : Prop where
  operand : fixup.position + offsetWidth ≤ fixup.base
  base : fixup.base ≤ limit

section Later

variable {limit later : Nat} (hle : limit ≤ later)
include hle

theorem ProtectedBlock.Within.mono {block : ProtectedBlock} (h : block.Within limit) : block.Within later where
  start := Nat.le_trans h.start hle
  stop stop hstop := ⟨(h.stop stop hstop).1, Nat.le_trans (h.stop stop hstop).2 hle⟩

theorem OpenHandler.Within.mono {handler : OpenHandler} (h : handler.Within limit) : handler.Within later where
  start := Nat.le_trans h.start hle
  filter := h.filter

theorem ExceptionClause.Within.mono {clause : ExceptionClause} (h : clause.Within limit) :
    clause.Within later where
  block := Nat.le_trans h.block hle
  handler := Nat.le_trans h.handler hle
  filter := h.filter

theorem Fixup.Within.mono {fixup : Fixup} (h : fixup.Within limit) : fixup.Within later where
  operand := h.operand
  base := Nat.le_trans h.base hle

end Later

/-- Both ends of a branch lie in the code, so what it leads over has a sign and 31 bits. -/
theorem Fixup.Within.relative_range {limit place : Nat} {fixup : Fixup} (h : fixup.Within limit)
    (hplace : place ≤ limit) (hlimit : limit < 2147483648) :
    -2147483648 ≤ (place : Int) - fixup.base ∧ (place : Int) - fixup.base < 2147483648 := by
  have hbase := h.base
  omega

namespace Writer

variable {w w' : Writer} {call : Delivery} {e : EmitError}

/-- **`Ordered`** — no offset in the books lies beyond the end of the code, what starts before something else
has the smaller offset, and no two operands share a byte.  Each string has an instruction of its own. -/
structure Ordered (w : Writer) : Prop where
  labels : w.labels.All (· ≤ w.offset)
  blocks : w.blocks.All (ProtectedBlock.Within w.offset)
  handlers : w.handlers.All (OpenHandler.Within w.offset)
  filters : w.pendingFilters.All (· ≤ w.offset)
  clauses : ∀ clause ∈ w.clauses, clause.Within w.offset
  fixups : ∀ fixup ∈ w.fixups, fixup.Within w.offset
  apart : w.fixups.toList.Pairwise fun first second => first.position + offsetWidth ≤ second.position
  strings : 5 * w.pool.strings.size ≤ w.offset

theorem Ordered.empty : Ordered Writer.empty where
  labels := .empty
  blocks := .empty
  handlers := .empty
  filters := .empty
  clauses _ hmem := absurd hmem (Array.not_mem_empty _)
  fixups _ hmem := absurd hmem (Array.not_mem_empty _)
  apart := .nil
  strings := Nat.le_refl 0

/-- More code, and strings that it has room to refer to. -/
theorem Ordered.append (h : w.Ordered) {pool : StringPool} {bytes : List UInt8}
    (hpool : 5 * pool.strings.size ≤ w.offset + bytes.length) :
    Ordered { w with pool, code := w.code ++ bytes } := by
  have hoffset : ({ w with pool, code := w.code ++ bytes } : Writer).offset = w.offset + bytes.length := by
    rw [offset, ← Array.length_toList, Array.toList_appendList, List.length_append, Array.length_toList, offset]
  have hle := Nat.le_add_right w.offset bytes.length
  rw [← hoffset] at hpool hle
  exact ⟨h.labels.imp fun _ hplace => Nat.le_trans hplace hle, h.blocks.imp fun _ => .mono hle,
    h.handlers.imp fun _ => .mono hle, h.filters.imp fun _ hfilter => Nat.le_trans hfilter hle,
    fun clause hclause => (h.clauses clause hclause).mono hle,
    fun fixup hfixup => (h.fixups fixup hfixup).mono hle, h.apart, hpool⟩

/-- A string comes with the five bytes that refer to it. -/
theorem Ordered.emit (h : w.Ordered) (g : TypeGraph) (insn : Instruction) : (w.emit g insn).Ordered := by
  refine h.append ?_
  have hstrings := h.strings
  cases insn with
  | ldstr s =>
    show 5 * (w.pool.intern s).strings.size ≤ w.offset + (withToken _ _).length
    have hsize : (w.pool.intern s).strings.size ≤ w.pool.strings.size + 1 := by
      rw [StringPool.intern]
      split
      · exact Nat.le_succ _
      · exact Nat.le_of_eq (Array.size_push s)
    rw [withToken, List.length_cons, length_littleEndian]
    omega
  | _ => exact Nat.le_add_right_of_le hstrings

/-- The operands of one branch, one after the other up to its end. -/
theorem mem_fixupsAt {position base : Nat} {targets : List Label} {fixup : Fixup}
    (h : fixup ∈ fixupsAt position base targets) : position ≤ fixup.position ∧
      fixup.position + offsetWidth ≤ position + offsetWidth * targets.length ∧ fixup.base = base := by
  induction targets generalizing position with
  | nil => cases h
  | cons target rest ih =>
    rw [List.length_cons, Nat.mul_succ]
    rcases List.mem_cons.mp h with rfl | h
    · exact ⟨Nat.le_refl _, Nat.add_le_add_left (Nat.le_add_left _ _) position, rfl⟩
    · obtain ⟨hstart, hstop, hbase⟩ := ih h
      exact ⟨by omega, by omega, hbase⟩

theorem pairwise_fixupsAt (position base : Nat) (targets : List Label) :
    (fixupsAt position base targets).Pairwise fun first second =>
      first.position + offsetWidth ≤ second.position := by
  induction targets generalizing position with
  | nil => exact .nil
  | cons target rest ih => exact .cons (fun _ hmem => (mem_fixupsAt hmem).1) (ih _)

/-- The operands of a branch lie behind those of the branches before it. -/
theorem Ordered.emitBranch (h : w.Ordered) (b : Branch Label) : (w.emitBranch b).Ordered := by
  have hcode : Ordered { w with
      code := w.code ++ (branchHead b ++ List.replicate (offsetWidth * b.targets.length) 0) } :=
    h.append (Nat.le_add_right_of_le h.strings)
  have hoffset : (w.emitBranch b).offset =
      w.offset + (branchHead b).length + offsetWidth * b.targets.length := by
    have hmade : (Delivery.branch b).make w = .ok () (w.emitBranch b) := rfl
    rw [offset_make hmade, Delivery.size_branch, Nat.add_assoc]
  have hnew {fixup : Fixup} (hfixup : fixup ∈ fixupsAt (w.offset + (branchHead b).length)
      (w.emitBranch b).offset b.targets) : w.offset ≤ fixup.position ∧
        fixup.Within (w.emitBranch b).offset := by
    obtain ⟨hstart, hstop, hbase⟩ := mem_fixupsAt hfixup
    exact ⟨by omega, by omega, by omega⟩
  have hfixups : (w.emitBranch b).fixups.toList = w.fixups.toList ++
      fixupsAt (w.offset + (branchHead b).length) (w.emitBranch b).offset b.targets := by
    rw [hoffset, Writer.emitBranch, Array.toList_appendList, List.length_replicate]
  refine ⟨hcode.labels, hcode.blocks, hcode.handlers, hcode.filters, hcode.clauses, ?_, ?_, hcode.strings⟩
  · intro fixup hfixup
    rw [← Array.mem_toList_iff, hfixups, List.mem_append] at hfixup
    rcases hfixup with hold | hfixup
    · exact hcode.fixups fixup (Array.mem_toList_iff.mp hold)
    · exact (hnew hfixup).2
  · rw [hfixups, List.pairwise_append]
    refine ⟨h.apart, pairwise_fixupsAt _ _ _, fun old hold new hmem => ?_⟩
    have hwithin := h.fixups old (Array.mem_toList_iff.mp hold)
    exact Nat.le_trans hwithin.operand (Nat.le_trans hwithin.base (hnew hmem).1)

/-- A block ends at the offset or has ended before. -/
theorem Ordered.endBlock (h : w.Ordered) {tryRegion : Region} {block : ProtectedBlock}
    (hblock : w.blocks.find? tryRegion = some block) :
    (w.endBlock tryRegion block).blocks.All (ProtectedBlock.Within w.offset) := by
  intro r found hfound
  rw [find?_endBlock_eq hblock] at hfound
  split at hfound
  case isFalse => exact h.blocks hfound
  case isTrue =>
    have hwithin := h.blocks hblock
    cases hfound
    refine ⟨hwithin.start, ?_⟩
    rintro _ ⟨⟩
    cases hstop : block.stop with
    | none => exact ⟨hwithin.start, Nat.le_refl _⟩
    | some stop => exact hwithin.stop stop hstop

/-- The filter block of a handler is one that was pending. -/
theorem filterOffset_entryOf {g : TypeGraph} {kind : RegionKind} {tryRegion : Region} {start filter : Nat}
    {pending : Option Nat} (h : (entryOf g kind tryRegion start pending).filterOffset = some filter) :
    pending = some filter := by
  cases kind <;> cases pending <;> simp_all [entryOf]

/-- A handler that opens starts at the offset. -/
theorem Ordered.beginHandler (h : w.Ordered) {g : TypeGraph} {region tryRegion : Region} {kind : RegionKind}
    (hcall : Writer.beginHandler g region kind tryRegion w = .ok () w') : w'.Ordered := by
  obtain ⟨-, block, pendingFilters, hblock, rfl, hpending⟩ := beginHandler_cases hcall
  have hentry : (entryOf g kind tryRegion w.offset (w.pendingFilters.find? tryRegion)).Within w.offset := by
    refine ⟨Nat.le_of_eq (start_entryOf _ _ _ _ _), fun filter hfilter => ?_⟩
    rw [start_entryOf]
    exact h.filters (filterOffset_entryOf hfilter)
  refine { h with blocks := h.endBlock hblock, handlers := h.handlers.insert hentry region, filters := ?_ }
  intro r filter hfilter
  rw [hpending] at hfilter
  split at hfilter
  case isFalse => exact h.filters hfilter
  case isTrue =>
    cases kind with
    | filterBlock =>
      cases hfilter
      exact Nat.le_refl _
    | catchHandler => cases hfilter
    | _ => exact h.filters hfilter

/-- The differences in a clause are lengths. -/
theorem Ordered.clauseOf (h : w.Ordered) {region : Region} {handler : OpenHandler} {start stop : Nat}
    (hhandler : w.handlers.find? region = some handler)
    (hblock : w.blocks.find? handler.tryRegion = some ⟨start, some stop⟩) :
    (w.clauseOf handler start stop).Within w.offset := by
  have hopen := h.handlers hhandler
  obtain ⟨hstart, hstop⟩ := (h.blocks hblock).stop stop rfl
  refine ⟨?_, ?_, ?_⟩
  · show start + (stop - start) ≤ w.offset
    rwa [Nat.add_sub_cancel' hstart]
  · show handler.start + (w.offset - handler.start) ≤ w.offset
    exact Nat.le_of_eq (Nat.add_sub_cancel' hopen.start)
  · show handler.filterOffset.getD 0 ≤ handler.start
    cases hfilter : handler.filterOffset with
    | none => exact Nat.zero_le _
    | some filter => exact hopen.filter filter hfilter

theorem Ordered.endRegion (h : w.Ordered) {region : Region} (hcall : Writer.endRegion region w = .ok () w') :
    w'.Ordered := by
  rcases endRegion_cases hcall with
    ⟨block, -, rfl⟩ | ⟨handler, -, -, rfl⟩ | ⟨handler, start, stop, hhandler, -, hblock, rfl⟩
  · exact { h with blocks := h.blocks.erase region }
  · exact { h with handlers := h.handlers.erase region }
  · refine { h with handlers := h.handlers.erase region, clauses := fun clause hclause => ?_ }
    rcases Array.mem_push.mp hclause with hold | rfl
    · exact h.clauses clause hold
    · exact h.clauseOf hhandler hblock

/-- **`Ordered.taken`** — a call that is taken leaves the offsets in order. -/
theorem Ordered.taken (h : w.Ordered) (hcall : call.make w = .ok () w') : w'.Ordered := by
  cases call with
  | instruction g insn =>
    cases hcall
    exact h.emit g insn
  | branch b =>
    cases hcall
    exact h.emitBranch b
  | label l =>
    obtain ⟨-, rfl⟩ := markLabel_cases hcall
    exact { h with labels := h.labels.insert (Nat.le_refl _) l }
  | beginRegion g region kind tryRegion =>
    cases tryRegion with
    | none =>
      cases hcall
      have hblock : ({ start := w.offset } : ProtectedBlock).Within w.offset := ⟨Nat.le_refl _, fun _ => nofun⟩
      exact { h with blocks := h.blocks.insert hblock region }
    | some tryRegion => exact h.beginHandler hcall
  | endRegion region => exact h.endRegion hcall

/-- **`Ordered.refused`** — and so does one that is refused, whatever it has changed before. -/
theorem Ordered.refused (h : w.Ordered) (hcall : w.Refuses call e w') : w'.Ordered := by
  cases hcall with
  | label => exact { h with labels := h.labels.insert (Nat.le_refl _) _ }
  | noBlock => exact h
  | tryAsHandler hblock =>
    have hblocks := h.endBlock hblock
    obtain ⟨blocks, hend⟩ := endBlock_eq _ _ w
    rw [hend] at hblocks ⊢
    exact { h with blocks := hblocks }
  | notOpen => exact h
  | blockLost => exact { h with handlers := h.handlers.erase _ }

theorem Ordered.answer (h : w.Ordered) (call : Delivery) : (Writer.answer call w).2.Ordered := by
  rw [Writer.answer]
  cases hcall : call.make w with
  | ok _ w' => exact h.taken hcall
  | error e w' => exact h.refused (make_error_iff.mp hcall)

/-- **`Ordered.attempt`** — whatever calls are made on a writer, its offsets stay in order. -/
theorem Ordered.attempt (h : w.Ordered) (calls : List Delivery) : (Writer.attempt calls w).2.Ordered := by
  induction calls generalizing w with
  | nil => exact h
  | cons call rest ih => exact ih (h.answer call)

/-- Code only grows. -/
theorem offset_le_answer (call : Delivery) (w : Writer) : w.offset ≤ (answer call w).2.offset := by
  rw [answer]
  cases hcall : call.make w with
  | ok _ w' => exact Nat.le.intro (offset_make hcall).symm
  | error e w' => exact Nat.le_of_eq (congrArg Array.size (make_error_iff.mp hcall).code_eq.1).symm

theorem offset_le_attempt (calls : List Delivery) (w : Writer) : w.offset ≤ (attempt calls w).2.offset := by
  induction calls generalizing w with
  | nil => exact Nat.le_refl _
  | cons call rest ih => exact Nat.le_trans (offset_le_answer call w) (ih _)

end Writer

end ManagedCode.Body
