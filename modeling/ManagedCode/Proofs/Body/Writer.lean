/-
# ManagedCode.Proofs.Body.Writer — what a call on the writer does to its books.

A writer only fails on calls out of order, so each call is described by what it needs to succeed and what
its books say afterwards.  The code and the clauses play no part in that: `finish` succeeds exactly if
every label that was jumped to has a place and no region is open.
-/
import ManagedCode.Body.Writer
import ManagedCode.Proofs.Stack.Application

namespace ManagedCode.Body

/-! ## § Registries -/

namespace Registry

variable {κ ν : Type} [DecidableEq κ]

theorem find?_insert (r : Registry κ ν) (k k' : κ) (v : ν) :
    (r.insert k v).find? k' = if k' = k then some v else r.find? k' := by
  by_cases heq : k' = k
  · rw [if_pos heq, heq, find?_insert_self]
  · rw [if_neg heq, find?_insert_of_ne r v (Ne.symm heq)]

theorem find?_erase (r : Registry κ ν) (k k' : κ) :
    (r.erase k).find? k' = if k' = k then none else r.find? k' := by
  by_cases heq : k' = k
  · rw [if_pos heq, heq, find?_erase_self]
  · rw [if_neg heq, find?_erase_of_ne r (Ne.symm heq)]

theorem latest?_eq_none {r : Registry κ ν} (h : ∀ k, r.find? k = none) : r.latest? = none := by
  obtain ⟨bindings⟩ := r
  cases bindings with
  | nil => rfl
  | cons b rest =>
    have hfirst := h b.1
    simp [find?] at hfirst

end Registry

namespace Writer

/-! ## § Code and labels -/

theorem target_fixupsAt (position base : Nat) (targets : List Label) :
    (fixupsAt position base targets).map Fixup.target = targets := by
  induction targets generalizing position with
  | nil => rfl
  | cons target rest ih => rw [fixupsAt, List.map_cons, ih]

/-- A branch asks for the places of all its targets. -/
theorem targets_emitBranch (branch : Branch Label) (w : Writer) :
    (w.emitBranch branch).fixups.toList.map Fixup.target =
      w.fixups.toList.map Fixup.target ++ branch.targets := by
  simp only [emitBranch, Array.toList_appendList, List.map_append, target_fixupsAt]

theorem markLabel_eq {l : Label} {w : Writer} (h : w.labels.find? l = none) :
    markLabel l w = .ok () { w with labels := w.labels.insert l w.offset } := by
  rw [markLabel.eq_1, h]

/-- What marking a label requires: that it has no place yet. -/
theorem markLabel_cases {l : Label} {w w' : Writer} (h : markLabel l w = .ok () w') :
    w.labels.find? l = none ∧ w' = { w with labels := w.labels.insert l w.offset } := by
  cases hfound : w.labels.find? l with
  | none =>
    cases (markLabel_eq hfound).symm.trans h
    exact ⟨rfl, rfl⟩
  | some place =>
    rw [markLabel.eq_1, hfound] at h
    cases h

/-! ## § Regions -/

/-- Every handler but the first finds its block ended already. -/
theorem find?_endBlock_eq {tryRegion : Region} {block : ProtectedBlock} {w : Writer}
    (h : w.blocks.find? tryRegion = some block) (r : Region) :
    (w.endBlock tryRegion block).blocks.find? r =
      if r = tryRegion then some { block with stop := some (block.stop.getD w.offset) }
      else w.blocks.find? r := by
  cases hstop : block.stop with
  | none =>
    rw [endBlock, hstop]
    exact Registry.find?_insert _ _ _ _
  | some stop =>
    have hsame : ({ block with stop := some stop } : ProtectedBlock) = block := by rw [← hstop]
    rw [endBlock, hstop, Option.getD_some, hsame]
    by_cases heq : r = tryRegion
    · rw [if_pos heq, heq, h]
    · rw [if_neg heq]

theorem find?_endBlock {tryRegion : Region} {block : ProtectedBlock} {w : Writer}
    (h : w.blocks.find? tryRegion = some block) :
    ∃ block', block'.stop.isSome = true ∧ ∀ r,
      (w.endBlock tryRegion block).blocks.find? r =
        if r = tryRegion then some block' else w.blocks.find? r :=
  ⟨_, rfl, find?_endBlock_eq h⟩

/-- Ending a block touches the book of the blocks only. -/
theorem endBlock_eq (tryRegion : Region) (block : ProtectedBlock) (w : Writer) :
    ∃ blocks, w.endBlock tryRegion block = { w with blocks } := by
  rw [endBlock]
  cases block.stop <;> exact ⟨_, rfl⟩

/-- The entry of a handler that starts at an offset.  A catch handler takes the filter that is pending. -/
def entryOf (g : TypeGraph) (kind : RegionKind) (tryRegion : Region) (start : Nat) (pending : Option Nat) :
    OpenHandler :=
  match kind, pending with
  | .tryBlock, _ | .filterBlock, _ => { tryRegion, kind := .filterClause, start }
  | .catchHandler _, some filter => { tryRegion, kind := .filterClause, filterOffset := some filter, start }
  | .catchHandler exception, none =>
    { tryRegion, kind := .catchClause, classToken := (g.type exception).token, start }
  | .finallyHandler, _ => { tryRegion, kind := .finallyClause, start }
  | .faultHandler, _ => { tryRegion, kind := .faultClause, start }

/-- The filter that is pending on a block once a handler has started at an offset. -/
def pendingAfter (kind : RegionKind) (start : Nat) (pending : Option Nat) : Option Nat :=
  match kind with
  | .filterBlock => some start
  | .catchHandler _ => none
  | .tryBlock | .finallyHandler | .faultHandler => pending

@[simp] theorem tryRegion_entryOf (g : TypeGraph) (kind : RegionKind) (tryRegion : Region) (start : Nat)
    (pending : Option Nat) : (entryOf g kind tryRegion start pending).tryRegion = tryRegion := by
  cases kind <;> cases pending <;> rfl

@[simp] theorem start_entryOf (g : TypeGraph) (kind : RegionKind) (tryRegion : Region) (start : Nat)
    (pending : Option Nat) : (entryOf g kind tryRegion start pending).start = start := by
  cases kind <;> cases pending <;> rfl

/-- A filter block is the one handler that leaves no clause. -/
theorem isFilterBlock_entryOf (g : TypeGraph) {kind : RegionKind} (hkind : kind ≠ .tryBlock)
    (tryRegion : Region) (start : Nat) (pending : Option Nat) :
    (entryOf g kind tryRegion start pending).isFilterBlock = true ↔ kind = .filterBlock := by
  cases kind <;> cases pending <;> simp [entryOf, OpenHandler.isFilterBlock] at hkind ⊢

/-- **`beginHandler_eq`** — what a handler of an open block changes in the books. -/
theorem beginHandler_eq (g : TypeGraph) (region : Region) {tryRegion : Region} {kind : RegionKind}
    {block : ProtectedBlock} {w : Writer} (hkind : kind ≠ .tryBlock)
    (h : w.blocks.find? tryRegion = some block) :
    ∃ pendingFilters,
      beginHandler g region kind tryRegion w = .ok () { w with
        blocks := (w.endBlock tryRegion block).blocks
        handlers := w.handlers.insert region
          (entryOf g kind tryRegion w.offset (w.pendingFilters.find? tryRegion))
        pendingFilters } ∧
      ∀ r, pendingFilters.find? r =
        if r = tryRegion then pendingAfter kind w.offset (w.pendingFilters.find? tryRegion)
        else w.pendingFilters.find? r := by
  obtain ⟨blocks, hend⟩ := w.endBlock_eq tryRegion block
  have hsame (r : Region) : w.pendingFilters.find? r =
      if r = tryRegion then w.pendingFilters.find? tryRegion else w.pendingFilters.find? r := by
    by_cases heq : r = tryRegion
    · rw [if_pos heq, heq]
    · rw [if_neg heq]
  rw [beginHandler.eq_1, h]
  simp only [hend]
  cases kind with
  | tryBlock => exact absurd rfl hkind
  | filterBlock => exact ⟨_, rfl, fun r => Registry.find?_insert _ _ _ _⟩
  | faultHandler => exact ⟨w.pendingFilters, rfl, hsame⟩
  | finallyHandler => exact ⟨w.pendingFilters, rfl, hsame⟩
  | catchHandler exception =>
    cases hfilter : w.pendingFilters.find? tryRegion with
    | none =>
      refine ⟨w.pendingFilters, rfl, fun r => ?_⟩
      have hkept := hsame r
      rw [hfilter] at hkept
      exact hkept
    | some filterOffset => exact ⟨_, rfl, fun r => Registry.find?_erase _ _ _⟩

theorem beginHandler_ok (g : TypeGraph) (region : Region) {tryRegion : Region} {kind : RegionKind}
    {block : ProtectedBlock} {w : Writer} (hkind : kind ≠ .tryBlock)
    (h : w.blocks.find? tryRegion = some block) :
    ∃ w' handler, beginHandler g region kind tryRegion w = .ok () w' ∧
      w'.labels = w.labels ∧ w'.fixups = w.fixups ∧
      w'.blocks = (w.endBlock tryRegion block).blocks ∧
      w'.handlers = w.handlers.insert region handler ∧ handler.tryRegion = tryRegion := by
  obtain ⟨pendingFilters, hok, -⟩ := beginHandler_eq g region hkind h
  exact ⟨_, _, hok, rfl, rfl, rfl, rfl, tryRegion_entryOf _ _ _ _ _⟩

/-- What opening a handler requires: an open block. -/
theorem beginHandler_cases {g : TypeGraph} {region tryRegion : Region} {kind : RegionKind} {w w' : Writer}
    (h : beginHandler g region kind tryRegion w = .ok () w') :
    kind ≠ .tryBlock ∧ ∃ block pendingFilters, w.blocks.find? tryRegion = some block ∧
      w' = { w with
        blocks := (w.endBlock tryRegion block).blocks
        handlers := w.handlers.insert region
          (entryOf g kind tryRegion w.offset (w.pendingFilters.find? tryRegion))
        pendingFilters } ∧
      ∀ r, pendingFilters.find? r =
        if r = tryRegion then pendingAfter kind w.offset (w.pendingFilters.find? tryRegion)
        else w.pendingFilters.find? r := by
  have hcall := h
  rw [beginHandler.eq_1] at hcall
  cases hblock : w.blocks.find? tryRegion with
  | none =>
    rw [hblock] at hcall
    cases hcall
  | some block =>
    rw [hblock] at hcall
    have hkind : kind ≠ .tryBlock := by
      rintro rfl
      cases hcall
    obtain ⟨pendingFilters, hok, hpending⟩ := beginHandler_eq g region hkind hblock
    cases hok.symm.trans h
    exact ⟨hkind, block, pendingFilters, rfl, rfl, hpending⟩

theorem endRegion_block {region : Region} {block : ProtectedBlock} {w : Writer}
    (h : w.blocks.find? region = some block) :
    endRegion region w = .ok () { w with blocks := w.blocks.erase region } := by
  rw [endRegion.eq_1, h]

/-- **`endRegion_handler_eq`** — a handler whose block has ended leaves its clause, unless it is a filter
block. -/
theorem endRegion_handler_eq {region : Region} {handler : OpenHandler} {start stop : Nat} {w : Writer}
    (hblock : w.blocks.find? region = none) (hhandler : w.handlers.find? region = some handler)
    (howner : w.blocks.find? handler.tryRegion = some ⟨start, some stop⟩) :
    endRegion region w = .ok () { w with
      handlers := w.handlers.erase region
      clauses := if handler.isFilterBlock then w.clauses
        else w.clauses.push (w.clauseOf handler start stop) } := by
  rw [endRegion.eq_1, hblock]
  simp only [hhandler, endHandler]
  by_cases hfilter : handler.isFilterBlock = true
  · simp only [if_pos hfilter]
  · simp only [if_neg hfilter, howner]
    rfl

/-- An open handler can be closed if its block has been ended, as the first handler does. -/
theorem endRegion_handler {region : Region} {handler : OpenHandler} {block : ProtectedBlock} {w : Writer}
    (hblock : w.blocks.find? region = none) (hhandler : w.handlers.find? region = some handler)
    (howner : w.blocks.find? handler.tryRegion = some block) (hstop : block.stop.isSome = true) :
    ∃ w', endRegion region w = .ok () w' ∧ w'.labels = w.labels ∧ w'.fixups = w.fixups ∧
      w'.blocks = w.blocks ∧ w'.handlers = w.handlers.erase region := by
  obtain ⟨start, stop⟩ := block
  cases stop with
  | none => cases hstop
  | some stop => exact ⟨_, endRegion_handler_eq hblock hhandler howner, rfl, rfl, rfl, rfl⟩

/-- What closing a region requires: an open block, an open filter block, or an open handler of a block that
has been ended. -/
theorem endRegion_cases {region : Region} {w w' : Writer} (h : endRegion region w = .ok () w') :
    (∃ block, w.blocks.find? region = some block ∧ w' = { w with blocks := w.blocks.erase region }) ∨
    (∃ handler, w.handlers.find? region = some handler ∧ handler.isFilterBlock = true ∧
      w' = { w with handlers := w.handlers.erase region }) ∨
    ∃ handler start stop, w.handlers.find? region = some handler ∧ handler.isFilterBlock = false ∧
      w.blocks.find? handler.tryRegion = some ⟨start, some stop⟩ ∧
      w' = { w with
        handlers := w.handlers.erase region
        clauses := w.clauses.push (w.clauseOf handler start stop) } := by
  cases hblock : w.blocks.find? region with
  | some block =>
    cases (endRegion_block hblock).symm.trans h
    exact .inl ⟨block, rfl, rfl⟩
  | none =>
    rw [endRegion.eq_1, hblock] at h
    cases hhandler : w.handlers.find? region with
    | none =>
      simp only [hhandler] at h
      cases h
    | some handler =>
      simp only [hhandler, endHandler] at h
      cases hfilter : handler.isFilterBlock with
      | true =>
        rw [if_pos hfilter] at h
        cases h
        exact .inr (.inl ⟨handler, rfl, hfilter, rfl⟩)
      | false =>
        rw [if_neg (Bool.eq_false_iff.mp hfilter)] at h
        split at h
        · rename_i start stop howner
          cases h
          exact .inr (.inr ⟨handler, start, stop, rfl, hfilter, howner, rfl⟩)
        · cases h

/-- Closing a region adds to no book of regions. -/
theorem endRegion_ok {region : Region} {w w' : Writer} (h : endRegion region w = .ok () w') :
    w'.pendingFilters = w.pendingFilters ∧
      ∀ r block, w'.blocks.find? r = some block → w.blocks.find? r = some block := by
  rcases endRegion_cases h with ⟨block, -, rfl⟩ | ⟨handler, -, -, rfl⟩ | ⟨handler, start, stop, -, -, -, rfl⟩
  · refine ⟨rfl, fun r found hfound => ?_⟩
    rw [Registry.find?_erase] at hfound
    split at hfound
    · cases hfound
    · exact hfound
  · exact ⟨rfl, fun _ _ hfound => hfound⟩
  · exact ⟨rfl, fun _ _ hfound => hfound⟩

/-! ## § The end -/

theorem foldlM_resolve_ok_iff (labels : Registry Label Nat) (fixups : List Fixup) (code : Array UInt8) :
    (∃ code', fixups.foldlM (resolve labels) code = .ok code') ↔
      ∀ l ∈ fixups.map Fixup.target, (labels.find? l).isSome = true := by
  induction fixups generalizing code with
  | nil => simp [pure, Except.pure]
  | cons fixup rest ih =>
    rw [List.foldlM_cons, List.map_cons, List.forall_mem_cons]
    cases hfind : labels.find? fixup.target with
    | none =>
      have herror : resolve labels code fixup = .error (.unknownLabel fixup.target) := by
        rw [resolve, hfind]
      rw [herror]
      constructor
      · rintro ⟨code', hok⟩
        cases hok
      · rintro ⟨hsome, -⟩
        cases hsome
    | some target =>
      have hok : ∃ patched, resolve labels code fixup = .ok patched := by
        rw [resolve, hfind]
        exact ⟨_, rfl⟩
      obtain ⟨patched, hpatched⟩ := hok
      rw [hpatched, ← ih patched]
      exact (and_iff_right rfl).symm

/-- Offsets are filled in first, and open regions are refused afterwards. -/
theorem finish_eq (w : Writer) :
    w.finish = w.fixups.foldlM (resolve w.labels) w.code >>= fun code =>
      match w.unclosed? with
      | some region => .error (.nesting (.neverClosed region))
      | none => .ok { code, clauses := w.clauses, userStrings := w.pool.strings } := rfl

/-- **`finish_ok_iff`** — with no region open, the body can be laid out exactly if all labels that were
jumped to have places. -/
theorem finish_ok_iff {w : Writer} (h : w.unclosed? = none) :
    (∃ body, w.finish = .ok body) ↔
      ∀ l ∈ w.fixups.toList.map Fixup.target, (w.labels.find? l).isSome = true := by
  rw [← foldlM_resolve_ok_iff w.labels w.fixups.toList w.code]
  rw [finish_eq, h, ← Array.foldlM_toList]
  constructor
  · rintro ⟨body, hok⟩
    obtain ⟨code, hcode, -⟩ := Except.bind_eq_ok_iff.mp hok
    exact ⟨code, hcode⟩
  · rintro ⟨code, hcode⟩
    rw [hcode]
    exact ⟨_, rfl⟩

end Writer

end ManagedCode.Body
