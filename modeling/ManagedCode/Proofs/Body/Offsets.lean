/-
# ManagedCode.Proofs.Body.Offsets — what a finished body consists of.

Every call that writes code appends one chunk of bytes, whose length depends on nothing but the call.  So
the offset of every call is known from the calls before it (`extent`), and with it the place of every label
and the end of every branch.  Finishing fills in the operands of the branches: the chunks keep their places,
and `Resolved` says what each of them holds in the end.
-/
import ManagedCode.Proofs.Body.Writer
import ManagedCode.Proofs.Sink.Delivery

namespace ManagedCode

open Body (StringPool Writer MethodBody Fixup Registry encode branchHead offsetWidth littleEndianInt)

/-! ## § Signed numbers -/

namespace Body

/-- The signed number that the bytes spell in two's complement, least significant byte first. -/
def ofLittleEndianInt (bytes : List UInt8) : Int :=
  Int.bmod (ofLittleEndian bytes) (Nat.pow 256 bytes.length)

/-- Reading back gives the number that the bytes have room for. -/
theorem ofLittleEndianInt_littleEndianInt_eq (width : Nat) (i : Int) :
    ofLittleEndianInt (littleEndianInt width i) = i.bmod (Nat.pow 256 width) := by
  have hpos : 0 < Nat.pow 256 width := Nat.pow_pos (by decide)
  have hread : (((i % (Nat.pow 256 width : Nat)).toNat % Nat.pow 256 width : Nat) : Int) =
      i % (Nat.pow 256 width : Nat) := by
    generalize Nat.pow 256 width = modulus at hpos
    have hnonneg := Int.emod_nonneg i (b := modulus) (by omega)
    have hlt := Int.emod_lt_of_pos i (b := modulus) (by omega)
    rw [Int.natCast_emod, Int.toNat_of_nonneg hnonneg, Int.emod_emod_of_dvd _ (Int.dvd_refl _)]
  rw [ofLittleEndianInt, length_littleEndianInt, littleEndianInt, ofLittleEndian_littleEndian, hread,
    Int.emod_bmod]

/-- A number that fits can be read back. -/
theorem ofLittleEndianInt_fits {width half : Nat} {i : Int} (hwidth : Nat.pow 256 width = 2 * half)
    (hlow : -half ≤ i) (hhigh : i < half) : ofLittleEndianInt (littleEndianInt width i) = i := by
  rw [ofLittleEndianInt_littleEndianInt_eq, hwidth]
  exact Int.bmod_eq_of_le (by omega) (by omega)

/-- A number that fits the operand of a branch can be read back. -/
theorem ofLittleEndianInt_littleEndianInt {i : Int} (hlow : -2147483648 ≤ i) (hhigh : i < 2147483648) :
    ofLittleEndianInt (littleEndianInt offsetWidth i) = i :=
  ofLittleEndianInt_fits (show Nat.pow 256 offsetWidth = 2 * 2147483648 by decide) hlow hhigh

/-- What stands for an offset that is not known yet. -/
def blank : List UInt8 := List.replicate offsetWidth 0

theorem flatMap_blank (targets : List Label) :
    targets.flatMap (fun _ => blank) = List.replicate (offsetWidth * targets.length) 0 := by
  induction targets with
  | nil => rfl
  | cons target rest ih =>
    rw [List.flatMap_cons, ih, blank, List.replicate_append_replicate, List.length_cons, Nat.mul_succ,
      Nat.add_comm]

theorem length_flatMap {operand : Label → List UInt8} (hwidth : ∀ l, (operand l).length = offsetWidth)
    (targets : List Label) : (targets.flatMap operand).length = offsetWidth * targets.length := by
  induction targets with
  | nil => rfl
  | cons target rest ih =>
    rw [List.flatMap_cons, List.length_append, hwidth, ih, List.length_cons, Nat.mul_succ, Nat.add_comm]

end Body

/-! ## § What a call writes -/

namespace Delivery

/-- The pool after the call. -/
def intern (pool : StringPool) : Delivery → StringPool
  | .instruction _ insn => pool.internOperand insn
  | _ => pool

/-- The bytes that the call writes, where `operand` says what stands for the offset of each target. -/
def bytes (pool : StringPool) (operand : Label → List UInt8) : Delivery → List UInt8
  | .instruction g insn => encode g (pool.internOperand insn) insn
  | .branch b => branchHead b ++ b.targets.flatMap operand
  | _ => []

/-- Number of bytes that the call writes. -/
def size (pool : StringPool) (call : Delivery) : Nat := (call.bytes pool fun _ => Body.blank).length

/-- The operands that a call at the given offset leaves to be filled in. -/
def fixups (start : Nat) : Delivery → List Fixup
  | .branch b =>
    let table := start + (branchHead b).length
    Writer.fixupsAt table (table + offsetWidth * b.targets.length) b.targets
  | _ => []

/-- How long a chunk is does not depend on the operands. -/
theorem length_bytes {operand : Label → List UInt8} (hwidth : ∀ l, (operand l).length = offsetWidth)
    (pool : StringPool) (call : Delivery) : (call.bytes pool operand).length = call.size pool := by
  cases call with
  | branch b =>
    rw [size, bytes, bytes, List.length_append, List.length_append, Body.length_flatMap hwidth,
      Body.length_flatMap fun _ => rfl]
  | _ => rfl

/-- An operand per target follows the head of a branch. -/
theorem size_branch (pool : StringPool) (b : Branch Label) :
    (Delivery.branch b).size pool = (branchHead b).length + offsetWidth * b.targets.length := by
  rw [size, bytes, List.length_append, Body.length_flatMap fun _ => rfl]

/-- Every branch has an opcode. -/
theorem size_branch_pos (pool : StringPool) (b : Branch Label) : 0 < (Delivery.branch b).size pool := by
  have hopcode : 0 < (branchHead b).length := by
    cases b <;> simp [branchHead, Body.extended]
  rw [size_branch]
  omega

end Delivery

/-- The pool after calls. -/
def poolAfter (pool : StringPool) (calls : List Delivery) : StringPool := calls.foldl Delivery.intern pool

/-- **`extent`** — the number of bytes that calls write. -/
def extent : StringPool → List Delivery → Nat
  | _, [] => 0
  | pool, call :: rest => call.size pool + extent (call.intern pool) rest

/-- The chunks of calls from an offset on, one per call; `operand` says what stands for the offset of a label
in a branch that ends at a given point. -/
def chunks (operand : (stop : Nat) → Label → List UInt8) : Nat → StringPool → List Delivery → List (List UInt8)
  | _, _, [] => []
  | start, pool, call :: rest =>
    call.bytes pool (operand (start + call.size pool)) ::
      chunks operand (start + call.size pool) (call.intern pool) rest

/-- The operands that calls from an offset on leave to be filled in. -/
def fixupsFrom : Nat → StringPool → List Delivery → List Fixup
  | _, _, [] => []
  | start, pool, call :: rest =>
    call.fixups start ++ fixupsFrom (start + call.size pool) (call.intern pool) rest

theorem extent_append (pool : StringPool) (calls calls' : List Delivery) :
    extent pool (calls ++ calls') = extent pool calls + extent (poolAfter pool calls) calls' := by
  induction calls generalizing pool with
  | nil => exact (Nat.zero_add _).symm
  | cons call rest ih =>
    rw [List.cons_append, extent, extent, ih, Nat.add_assoc]
    rfl

theorem extent_take_le (pool : StringPool) (calls : List Delivery) (k : Nat) :
    extent pool (calls.take k) ≤ extent pool calls := by
  have hsplit := extent_append pool (calls.take k) (calls.drop k)
  rw [List.take_append_drop] at hsplit
  omega

section Chunks

variable {operand : Nat → Label → List UInt8}

theorem length_chunks (start : Nat) (pool : StringPool) (calls : List Delivery) :
    (chunks operand start pool calls).length = calls.length := by
  induction calls generalizing start pool with
  | nil => rfl
  | cons call rest ih => rw [chunks, List.length_cons, List.length_cons, ih]

theorem getElem?_chunks {start : Nat} {pool : StringPool} {calls : List Delivery} {k : Nat}
    {call : Delivery} (h : calls[k]? = some call) :
    (chunks operand start pool calls)[k]? =
      some (call.bytes (poolAfter pool (calls.take k))
        (operand (start + extent pool (calls.take (k + 1))))) := by
  induction calls generalizing start pool k with
  | nil => cases h
  | cons first rest ih =>
    rw [chunks]
    cases k with
    | zero =>
      rw [List.getElem?_cons_zero, Option.some.injEq] at h
      subst h
      rfl
    | succ k =>
      rw [List.getElem?_cons_succ] at h ⊢
      rw [ih h, List.take_succ_cons, List.take_succ_cons, extent, Nat.add_assoc]
      rfl

/-- The chunks stand where the calls before them have left off. -/
theorem length_flatten_take_chunks (hwidth : ∀ stop l, (operand stop l).length = offsetWidth)
    (start : Nat) (pool : StringPool) (calls : List Delivery) (k : Nat) :
    ((chunks operand start pool calls).take k).flatten.length = extent pool (calls.take k) := by
  induction calls generalizing start pool k with
  | nil => simp [chunks, extent]
  | cons call rest ih =>
    cases k with
    | zero => rfl
    | succ k =>
      rw [chunks, List.take_succ_cons, List.take_succ_cons, List.flatten_cons, List.length_append, extent,
        ih, Delivery.length_bytes (hwidth _)]

theorem length_flatten_chunks (hwidth : ∀ stop l, (operand stop l).length = offsetWidth)
    (start : Nat) (pool : StringPool) (calls : List Delivery) :
    (chunks operand start pool calls).flatten.length = extent pool calls := by
  have hall := length_flatten_take_chunks hwidth start pool calls calls.length
  rwa [List.take_of_length_le (Nat.le_of_eq (length_chunks start pool calls)), List.take_length] at hall

end Chunks

/-! ## § The writer appends -/

namespace Body.Writer

/-- The two writers differ in their regions and clauses at most. -/
structure SameCode (w w' : Writer) : Prop where
  code : w'.code = w.code
  labels : w'.labels = w.labels
  fixups : w'.fixups = w.fixups
  pool : w'.pool = w.pool

theorem sameCode_beginHandler {g : TypeGraph} {region tryRegion : Region} {kind : RegionKind}
    {w w' : Writer} (h : beginHandler g region kind tryRegion w = .ok () w') : SameCode w w' := by
  obtain ⟨-, block, pendingFilters, -, rfl, -⟩ := beginHandler_cases h
  exact ⟨rfl, rfl, rfl, rfl⟩

theorem sameCode_endRegion {region : Region} {w w' : Writer} (h : endRegion region w = .ok () w') :
    SameCode w w' := by
  rcases endRegion_cases h with ⟨block, -, rfl⟩ | ⟨handler, -, -, rfl⟩ | ⟨handler, start, stop, -, -, -, rfl⟩
  · exact ⟨rfl, rfl, rfl, rfl⟩
  · exact ⟨rfl, rfl, rfl, rfl⟩
  · exact ⟨rfl, rfl, rfl, rfl⟩

/-- **`Wrote`** — what calls on a writer leave of its code: one blank chunk per call, the operands that are to
be filled in, and the labels at the offsets where they were marked. -/
structure Wrote (calls : List Delivery) (w w' : Writer) : Prop where
  code : w'.code.toList = w.code.toList ++ (chunks (fun _ _ => blank) w.offset w.pool calls).flatten
  fixups : w'.fixups.toList = w.fixups.toList ++ fixupsFrom w.offset w.pool calls
  pool : w'.pool = poolAfter w.pool calls
  labels : ∀ l place, w'.labels.find? l = some place ↔ w.labels.find? l = some place ∨
    ∃ k, calls[k]? = some (.label l) ∧ place = w.offset + extent w.pool (calls.take k)

theorem wrote_of_sameCode {call : Delivery} {w w' : Writer} (h : SameCode w w')
    (hbytes : ∀ pool operand, call.bytes pool operand = []) (hfixups : ∀ start, call.fixups start = [])
    (hpool : ∀ pool, call.intern pool = pool) (hlabel : ∀ l, call ≠ .label l) : Wrote [call] w w' := by
  refine ⟨?_, ?_, ?_, fun l place => ?_⟩
  · simp [chunks, hbytes, h.code]
  · simp [fixupsFrom, hfixups, h.fixups]
  · rw [poolAfter, List.foldl_cons, hpool, h.pool]
    rfl
  · rw [h.labels]
    refine (or_iff_left ?_).symm
    rintro ⟨k, hk, -⟩
    exact hlabel l (List.mem_singleton.mp (List.mem_of_getElem? hk)).symm

/-- One call leaves one chunk. -/
theorem wrote_make {call : Delivery} {w w' : Writer} (h : call.make w = .ok () w') :
    Wrote [call] w w' := by
  cases call with
  | instruction g insn =>
    cases h
    refine ⟨?_, ?_, rfl, fun l place => ?_⟩
    · simp [chunks, Delivery.bytes, emit]
    · simp [fixupsFrom, Delivery.fixups, emit]
    · refine (or_iff_left ?_).symm
      rintro ⟨k, hk, -⟩
      cases List.mem_singleton.mp (List.mem_of_getElem? hk)
  | branch b =>
    cases h
    refine ⟨?_, ?_, rfl, fun l place => ?_⟩
    · simp [chunks, Delivery.bytes, emitBranch, flatMap_blank]
    · simp [fixupsFrom, Delivery.fixups, emitBranch]
    · refine (or_iff_left ?_).symm
      rintro ⟨k, hk, -⟩
      cases List.mem_singleton.mp (List.mem_of_getElem? hk)
  | label l =>
    obtain ⟨hfound, rfl⟩ := markLabel_cases h
    refine ⟨?_, ?_, rfl, fun l' place => ?_⟩
    · simp [chunks, Delivery.bytes]
    · simp [fixupsFrom, Delivery.fixups]
    · show (w.labels.insert l w.offset).find? l' = some place ↔ _
      rw [Registry.find?_insert]
      by_cases heq : l' = l
      · subst heq
        rw [if_pos rfl, hfound, Option.some.injEq]
        constructor
        · intro hplace
          exact .inr ⟨0, rfl, hplace.symm⟩
        · rintro (hnone | ⟨k, hk, hplace⟩)
          · cases hnone
          · have hlt := (List.getElem?_eq_some_iff.mp hk).1
            have hzero : k = 0 := by simpa using hlt
            subst hzero
            exact hplace.symm
      · rw [if_neg heq]
        refine (or_iff_left ?_).symm
        rintro ⟨k, hk, -⟩
        cases List.mem_singleton.mp (List.mem_of_getElem? hk)
        exact heq rfl
  | beginRegion g region kind tryRegion =>
    have hsame : SameCode w w' := by
      cases tryRegion with
      | none =>
        cases h
        exact ⟨rfl, rfl, rfl, rfl⟩
      | some tryRegion => exact sameCode_beginHandler h
    exact wrote_of_sameCode hsame (fun _ _ => rfl) (fun _ => rfl) (fun _ => rfl) (by simp)
  | endRegion region =>
    exact wrote_of_sameCode (sameCode_endRegion h) (fun _ _ => rfl) (fun _ => rfl) (fun _ => rfl) (by simp)

/-- A call leaves as many bytes as it writes. -/
theorem offset_make {call : Delivery} {w w' : Writer} (h : call.make w = .ok () w') :
    w'.offset = w.offset + call.size w.pool := by
  have hlength := congrArg List.length (wrote_make h).code
  rwa [List.length_append, length_flatten_chunks fun _ _ => rfl] at hlength

/-- Calls leave what they leave one by one. -/
theorem wrote_takes {calls : List Delivery} {w w' : Writer} (h : Takes w calls w') : Wrote calls w w' := by
  induction calls generalizing w with
  | nil =>
    cases takes_nil.mp h
    refine ⟨(List.append_nil _).symm, (List.append_nil _).symm, rfl, fun l place => ?_⟩
    exact (or_iff_left (by simp)).symm
  | cons call rest ih =>
    obtain ⟨w₁, hcall, hrest⟩ := takes_cons.mp h
    have hfirst := wrote_make hcall
    have hlater := ih hrest
    have hpool : w₁.pool = call.intern w.pool := hfirst.pool
    have hoffset := offset_make hcall
    refine ⟨?_, ?_, ?_, fun l place => ?_⟩
    · rw [hlater.code, hfirst.code, hpool, hoffset, List.append_assoc]
      simp [chunks]
    · rw [hlater.fixups, hfirst.fixups, hpool, hoffset, List.append_assoc]
      simp [fixupsFrom]
    · rw [hlater.pool, hpool]
      rfl
    · rw [hlater.labels, hfirst.labels, or_assoc, hpool, hoffset]
      refine or_congr_right ?_
      constructor
      · rintro (⟨k, hk, rfl⟩ | ⟨k, hk, rfl⟩)
        · obtain rfl : k = 0 := by simpa using (List.getElem?_eq_some_iff.mp hk).1
          exact ⟨0, hk, rfl⟩
        · refine ⟨k + 1, hk, ?_⟩
          rw [List.take_succ_cons, extent, Nat.add_assoc]
      · rintro ⟨k, hk, rfl⟩
        cases k with
        | zero => exact .inl ⟨0, hk, rfl⟩
        | succ k =>
          refine .inr ⟨k, hk, ?_⟩
          rw [List.take_succ_cons, extent, Nat.add_assoc]

/-- The next instruction starts where the calls have left off. -/
theorem offset_takes {calls : List Delivery} {w : Writer} (h : Takes Writer.empty calls w) :
    w.offset = extent {} calls := by
  have hlength := congrArg List.length (wrote_takes h).code
  rw [List.length_append, length_flatten_chunks fun _ _ => rfl] at hlength
  exact hlength.trans (Nat.zero_add _)

/-! ## § Filling in -/

theorem toList_overwrite {code : Array UInt8} {before old after bytes : List UInt8}
    (hcode : code.toList = before ++ (old ++ after)) (hlength : old.length = bytes.length) :
    (overwrite code before.length bytes).toList = before ++ (bytes ++ after) := by
  induction bytes generalizing code before old with
  | nil =>
    rw [List.length_nil, List.length_eq_zero_iff] at hlength
    rw [overwrite, hcode, hlength]
  | cons byte rest ih =>
    cases old with
    | nil => cases hlength
    | cons first old =>
      have hset : (code.setIfInBounds before.length byte).toList = (before ++ [byte]) ++ (old ++ after) := by
        rw [Array.toList_setIfInBounds, hcode, List.set_append_right _ _ (Nat.le_refl _), Nat.sub_self,
          List.append_assoc]
        rfl
      have hrest := ih hset (Nat.succ.inj hlength)
      rw [List.length_append, List.append_assoc] at hrest
      exact hrest

/-- What a branch that ends at a given point holds for a label in the end. -/
def displacement (labels : Registry Label Nat) (stop : Nat) (l : Label) : List UInt8 :=
  littleEndianInt offsetWidth (((labels.find? l).getD 0 : Nat) - stop)

theorem length_displacement (labels : Registry Label Nat) (stop : Nat) (l : Label) :
    (displacement labels stop l).length = offsetWidth := length_littleEndianInt _ _

/-- The operands of one branch are filled in one after the other. -/
theorem foldlM_fixupsAt {labels : Registry Label Nat} {targets : List Label} {position base : Nat}
    {before after : List UInt8} {code code' : Array UInt8} (hposition : before.length = position)
    (hcode : code.toList = before ++ (targets.flatMap (fun _ => blank) ++ after))
    (h : (fixupsAt position base targets).foldlM (resolve labels) code = .ok code') :
    code'.toList = before ++ (targets.flatMap (displacement labels base) ++ after) := by
  induction targets generalizing position before code with
  | nil =>
    cases h
    exact hcode
  | cons target rest ih =>
    rw [fixupsAt, List.foldlM_cons] at h
    obtain ⟨patched, hpatched, hrest⟩ := Except.bind_eq_ok_iff.mp h
    rw [resolve] at hpatched
    cases hfind : labels.find? target with
    | none =>
      rw [hfind] at hpatched
      cases hpatched
    | some place =>
      rw [hfind] at hpatched
      cases hpatched
      have hvalue : littleEndianInt offsetWidth ((place : Int) - base) = displacement labels base target := by
        rw [displacement, hfind]
        rfl
      rw [List.flatMap_cons, List.append_assoc] at hcode
      have hfirst := toList_overwrite hcode (length_displacement labels base target).symm
      rw [← List.append_assoc, hposition] at hfirst
      rw [hvalue] at hrest
      have hlength : (before ++ displacement labels base target).length = position + offsetWidth := by
        rw [List.length_append, length_displacement, hposition]
      rw [ih hlength hfirst hrest, List.flatMap_cons, List.append_assoc, List.append_assoc]

/-- Filling in the operands of all branches turns the blank chunks into the final ones. -/
theorem foldlM_fixupsFrom {labels : Registry Label Nat} {calls : List Delivery} {pool : StringPool}
    {start : Nat} {before : List UInt8} {code code' : Array UInt8} (hstart : before.length = start)
    (hcode : code.toList = before ++ (chunks (fun _ _ => blank) start pool calls).flatten)
    (h : (fixupsFrom start pool calls).foldlM (resolve labels) code = .ok code') :
    code'.toList = before ++ (chunks (displacement labels) start pool calls).flatten := by
  induction calls generalizing before start pool code with
  | nil =>
    cases h
    exact hcode
  | cons call rest ih =>
    rw [fixupsFrom, List.foldlM_append] at h
    obtain ⟨patched, hpatched, hrest⟩ := Except.bind_eq_ok_iff.mp h
    rw [chunks, List.flatten_cons] at hcode ⊢
    have hfirst : patched.toList =
        before ++ (call.bytes pool (displacement labels (start + call.size pool)) ++
          (chunks (fun _ _ => blank) (start + call.size pool) (call.intern pool) rest).flatten) := by
      cases call with
      | branch b =>
        have hstop : start + (Delivery.branch b).size pool =
            start + (branchHead b).length + offsetWidth * b.targets.length := by
          rw [Delivery.size_branch, Nat.add_assoc]
        rw [Delivery.bytes, List.append_assoc, ← List.append_assoc before] at hcode ⊢
        rw [hstop] at hcode ⊢
        exact foldlM_fixupsAt (by rw [List.length_append, hstart]) hcode hpatched
      | _ =>
        -- No other call has operands to fill in.
        cases hpatched
        exact hcode
    rw [← List.append_assoc] at hfirst ⊢
    refine ih ?_ hfirst hrest
    rw [List.length_append, Delivery.length_bytes (length_displacement labels _), hstart]

/-- Two ways to fill in the operands differ in operands only. -/
theorem getElem?_chunks_ne {operand operand' : Nat → Label → List UInt8}
    (hwidth : ∀ stop l, (operand stop l).length = offsetWidth)
    (hwidth' : ∀ stop l, (operand' stop l).length = offsetWidth) {start : Nat} {pool : StringPool}
    {calls : List Delivery} {i : Nat}
    (h : (chunks operand start pool calls).flatten[i]? ≠ (chunks operand' start pool calls).flatten[i]?) :
    ∃ k b, calls[k]? = some (.branch b) ∧ extent pool (calls.take k) + (branchHead b).length ≤ i ∧
      i < extent pool (calls.take (k + 1)) := by
  induction calls generalizing start pool i with
  | nil => exact absurd rfl h
  | cons call rest ih =>
    have hlength := call.length_bytes (hwidth (start + call.size pool)) pool
    have hlength' := call.length_bytes (hwidth' (start + call.size pool)) pool
    rw [chunks, chunks, List.flatten_cons, List.flatten_cons, List.getElem?_append, List.getElem?_append,
      hlength, hlength'] at h
    by_cases hfirst : i < call.size pool
    · rw [if_pos hfirst, if_pos hfirst] at h
      cases call with
      | branch b =>
        refine ⟨0, b, rfl, ?_, hfirst⟩
        rw [Delivery.bytes, Delivery.bytes, List.getElem?_append, List.getElem?_append] at h
        by_cases hhead : i < (branchHead b).length
        · rw [if_pos hhead, if_pos hhead] at h
          exact absurd rfl h
        · show 0 + _ ≤ i
          omega
      | _ => exact absurd rfl h
    · rw [if_neg hfirst, if_neg hfirst] at h
      obtain ⟨k, b, hk, hlow, hhigh⟩ := ih h
      refine ⟨k + 1, b, hk, ?_, ?_⟩
      · rw [List.take_succ_cons, extent]
        omega
      · rw [List.take_succ_cons, extent]
        omega

/-! ## § The finished body -/

/-- The offset of the chunk of a call, and of the end of the chunk before it. -/
def boundary (chunks : List (List UInt8)) (k : Nat) : Nat := (chunks.take k).flatten.length

/-- **`Resolved`** — the code that calls on a fresh writer come to: one chunk per call, in the order of the
calls.  The operands of a branch lead from its end to the point where their label was marked. -/
structure Resolved (calls : List Delivery) (w : Writer) (code : Array UInt8) (chunks : List (List UInt8)) :
    Prop where
  count : chunks.length = calls.length
  concatenated : code.toList = chunks.flatten
  instruction : ∀ k g insn, calls[k]? = some (.instruction g insn) →
    chunks[k]? = some (encode g (poolAfter {} (calls.take (k + 1))) insn)
  branch : ∀ k b, calls[k]? = some (.branch b) → ∃ operands : List (List UInt8),
    chunks[k]? = some (branchHead b ++ operands.flatten) ∧
    List.Forall₂ (fun operand target => operand.length = offsetWidth ∧
      ∃ j, calls[j]? = some (.label target) ∧
        ofLittleEndianInt operand + boundary chunks (k + 1) = boundary chunks j) operands b.targets
  /-- Marking a label, opening and closing a region write nothing. -/
  silent : ∀ (k : Nat) (call : Delivery), calls[k]? = some call → (∀ g insn, call ≠ .instruction g insn) →
    (∀ b, call ≠ .branch b) → chunks[k]? = some []
  /-- The writer stood at the beginning of the chunk when the call was made. -/
  reached : ∀ k w', Takes Writer.empty (calls.take k) w' → w'.offset = boundary chunks k
  labels : ∀ l place, w.labels.find? l = some place ↔
    ∃ k, calls[k]? = some (.label l) ∧ place = boundary chunks k
  /-- Finishing changes the operands of branches and no other byte. -/
  untouched : code.size = w.code.size ∧ ∀ i, code[i]? ≠ w.code[i]? → ∃ k b,
    calls[k]? = some (.branch b) ∧ boundary chunks k + (branchHead b).length ≤ i ∧
      i < boundary chunks (k + 1)

/-- What a call at an offset leaves to be filled in are its targets. -/
theorem mem_fixupsFrom {start : Nat} {pool : StringPool} {calls : List Delivery} {k : Nat}
    {b : Branch Label} (h : calls[k]? = some (.branch b)) :
    b.targets ⊆ (fixupsFrom start pool calls).map Fixup.target := by
  induction calls generalizing start pool k with
  | nil => cases h
  | cons call rest ih =>
    rw [fixupsFrom, List.map_append]
    cases k with
    | zero =>
      rw [List.getElem?_cons_zero, Option.some.injEq] at h
      rw [h, Delivery.fixups, target_fixupsAt]
      exact List.subset_append_left _ _
    | succ k => exact List.subset_append_of_subset_right _ (ih h)

/-- The finished code in terms of the calls; every target of a branch has been marked. -/
theorem finish_chunks {calls : List Delivery} {w : Writer} {body : MethodBody}
    (hcalls : Takes Writer.empty calls w) (hfinish : w.finish = .ok body) :
    body.code.toList = (chunks (displacement w.labels) 0 {} calls).flatten ∧
      ∀ (k : Nat) b, calls[k]? = some (.branch b) → ∀ l ∈ b.targets, ∃ place,
        w.labels.find? l = some place := by
  have hwrote := wrote_takes hcalls
  rw [finish_eq] at hfinish
  obtain ⟨code, hcode, hbody⟩ := Except.bind_eq_ok_iff.mp hfinish
  rw [← Array.foldlM_toList, hwrote.fixups] at hcode
  have hplaced := (foldlM_resolve_ok_iff _ _ _).mp ⟨code, hcode⟩
  have hfinal := foldlM_fixupsFrom rfl hwrote.code hcode
  refine ⟨?_, fun k b hk l hl => ?_⟩
  · cases hopen : w.unclosed? with
    | some region =>
      rw [hopen] at hbody
      cases hbody
    | none =>
      rw [hopen] at hbody
      cases hbody
      exact hfinal
  · exact Option.isSome_iff_exists.mp (hplaced l (mem_fixupsFrom hk hl))

/-- Filling in the offsets does not change how much code there is. -/
theorem size_finish {calls : List Delivery} {w : Writer} {body : MethodBody}
    (hcalls : Takes Writer.empty calls w) (hfinish : w.finish = .ok body) :
    body.code.size = extent {} calls := by
  have hlength := congrArg List.length (finish_chunks hcalls hfinish).1
  rw [length_flatten_chunks (length_displacement w.labels)] at hlength
  exact hlength

/-- **`offsets_resolved`** — every call that writes code leaves one chunk of the finished body, and every
operand of a branch leads from the end of the branch to its label, as long as the code has fewer than 2^31
bytes. -/
theorem offsets_resolved {calls : List Delivery} {w : Writer} {body : MethodBody}
    (hcalls : Takes Writer.empty calls w) (hfinish : w.finish = .ok body)
    (hsize : body.code.size < 2147483648) : ∃ chunks, Resolved calls w body.code chunks := by
  have hwrote := wrote_takes hcalls
  obtain ⟨hcode, hplaced⟩ := finish_chunks hcalls hfinish
  have hwidth := length_displacement w.labels
  have hboundary (k : Nat) : boundary (chunks (displacement w.labels) 0 {} calls) k =
      extent {} (calls.take k) := length_flatten_take_chunks hwidth 0 {} calls k
  have hlabels (l : Label) (place : Nat) : w.labels.find? l = some place ↔
      ∃ k, calls[k]? = some (.label l) ∧
        place = boundary (chunks (displacement w.labels) 0 {} calls) k := by
    rw [hwrote.labels l place]
    refine (or_iff_right (by simp [Writer.empty, Registry.find?])).trans ?_
    refine exists_congr fun k => and_congr_right fun _ => ?_
    rw [hboundary, show Writer.empty.offset = 0 from rfl, Nat.zero_add]
    rfl
  have htotal : extent {} calls < 2147483648 := size_finish hcalls hfinish ▸ hsize
  refine ⟨chunks (displacement w.labels) 0 {} calls, length_chunks _ _ _, hcode, ?_, ?_, ?_, ?_, hlabels, ?_⟩
  · intro k g insn hk
    rw [getElem?_chunks hk, List.take_add_one, hk, poolAfter, poolAfter, List.foldl_append]
    rfl
  · intro k b hk
    refine ⟨b.targets.map (displacement w.labels (extent {} (calls.take (k + 1)))), ?_, ?_⟩
    · rw [getElem?_chunks hk, Nat.zero_add, Delivery.bytes, List.flatMap_def]
    · rw [List.forall₂_map_left_iff, List.forall₂_same]
      intro l hl
      obtain ⟨place, hplace⟩ := hplaced k b hk l hl
      obtain ⟨j, hj, hreached⟩ := (hlabels l place).mp hplace
      refine ⟨hwidth _ l, j, hj, ?_⟩
      -- Both ends lie in the code, so their distance fits the operand.
      have hstop := extent_take_le {} calls (k + 1)
      have htarget := extent_take_le {} calls j
      rw [hboundary] at hreached
      rw [hboundary, hboundary, displacement, hplace, Option.getD_some, hreached,
        ofLittleEndianInt_littleEndianInt (by omega) (by omega)]
      omega
  · intro k call hk hinsn hbranch
    rw [getElem?_chunks hk]
    cases call with
    | instruction g insn => exact absurd rfl (hinsn g insn)
    | branch b => exact absurd rfl (hbranch b)
    | _ => rfl
  · intro k w' hw'
    rw [hboundary]
    exact offset_takes hw'
  · have hblank : w.code.toList = (chunks (fun _ _ => blank) 0 {} calls).flatten := hwrote.code
    refine ⟨?_, fun i hi => ?_⟩
    · rw [← Array.length_toList, ← Array.length_toList, hcode, hblank, length_flatten_chunks hwidth,
        length_flatten_chunks fun _ _ => rfl]
    · rw [← Array.getElem?_toList, ← Array.getElem?_toList, hcode, hblank] at hi
      obtain ⟨k, b, hk, hlow, hhigh⟩ := getElem?_chunks_ne hwidth (fun _ _ => rfl) hi
      refine ⟨k, b, hk, ?_, ?_⟩
      · rwa [hboundary]
      · rwa [hboundary]

end Body.Writer

namespace Sample

/-- A loop around a jump table that names one label twice. -/
def dispatch : List Delivery :=
  [.label ⟨0⟩, .instruction .empty (.ldcI4 1), .branch (.switch [⟨1⟩, ⟨0⟩, ⟨1⟩]), .branch (.br ⟨0⟩),
    .label ⟨1⟩, .branch .ret]

theorem offsets_dispatch : ∃ w body chunks, Takes Writer.empty dispatch w ∧ w.finish = .ok body ∧
    Writer.Resolved dispatch w body.code chunks := by
  have hsmall : (match deliver dispatch Writer.empty with
      | .ok _ w => w.finish.toOption.map fun body => decide (body.code.size < 2147483648)
      | .error _ _ => none) = some true := by
    decide +kernel
  cases hcalls : deliver dispatch Writer.empty with
  | error e w =>
    rw [hcalls] at hsmall
    cases hsmall
  | ok _ w =>
    cases hfinish : w.finish with
    | error e =>
      simp only [hcalls, hfinish] at hsmall
      cases hsmall
    | ok body =>
      simp only [hcalls, hfinish] at hsmall
      obtain ⟨chunks, hchunks⟩ :=
        Writer.offsets_resolved hcalls hfinish (of_decide_eq_true (Option.some.inj hsmall))
      exact ⟨w, body, chunks, hcalls, hfinish, hchunks⟩

end Sample

end ManagedCode
