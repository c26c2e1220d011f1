/-
# ManagedCode.Body.Writer — the sink that lays out a method body.

The writer appends the bytes of each instruction.  A branch is written with its offsets blank and a `Fixup`
per offset; `finish` fills the offsets in once the places of all labels are known.  Protected blocks and
handlers are kept in books of their own, by region, and a handler turns into a clause when it is closed, so
that inner clauses precede outer ones.

The writer does not trust its caller: a handler of a block that is not open, a region that is not open and a
label that is placed twice are refused.
-/
import ManagedCode.Body.Clause
import ManagedCode.Body.Encoding
import ManagedCode.Body.Registry
import ManagedCode.Sink.Basic

namespace ManagedCode.Body

/-! ## § The books -/

/-- An offset that is filled in when the body is finished. -/
structure Fixup where
  /-- Where the 32-bit offset stands in the code. -/
  position : Nat
  /-- The end of the instruction, which the offset is relative to. -/
  base : Nat
  target : Label
  deriving DecidableEq, Inhabited

/-- An open protected block. -/
structure ProtectedBlock where
  start : Nat
  /-- Where its first handler starts, once it has. -/
  stop : Option Nat := none
  deriving DecidableEq, Inhabited

/-- An open handler. -/
structure OpenHandler where
  tryRegion : Region
  kind : ClauseKind
  classToken : UInt32 := 0
  /-- Start of the filter block that guards the handler. -/
  filterOffset : Option Nat := none
  start : Nat
  deriving DecidableEq, Inhabited

namespace OpenHandler

/-- The region is a filter block, which has no clause of its own. -/
def isFilterBlock (h : OpenHandler) : Bool := h.kind == .filterClause && h.filterOffset.isNone

end OpenHandler

/-- A method body in the making. -/
structure Writer where
  code : Array UInt8 := #[]
  /-- Offsets of the labels that were placed. -/
  labels : Registry Label Nat := {}
  fixups : Array Fixup := #[]
  pool : StringPool := {}
  blocks : Registry Region ProtectedBlock := {}
  handlers : Registry Region OpenHandler := {}
  /-- Starts of filter blocks whose catch handler has not started, by protected block. -/
  pendingFilters : Registry Region Nat := {}
  clauses : Array ExceptionClause := #[]
  deriving DecidableEq, Inhabited

/-- A finished method body. -/
structure MethodBody where
  code : Array UInt8
  /-- Innermost clauses first. -/
  clauses : Array ExceptionClause
  userStrings : Array String
  deriving DecidableEq, Inhabited

namespace Writer

/-- Nothing is written yet. -/
def empty : Writer := {}

/-- Where the next instruction starts. -/
def offset (w : Writer) : Nat := w.code.size

/-! ## § Code -/

/-- Appends a straight-line instruction. -/
def emit (g : TypeGraph) (insn : Instruction) (w : Writer) : Writer :=
  let pool := w.pool.internOperand insn
  { w with pool, code := w.code ++ encode g pool insn }

/-- The fixups of consecutive offsets that start at `position`, all relative to `base`. -/
def fixupsAt (position base : Nat) : List Label → List Fixup
  | [] => []
  | target :: rest => ⟨position, base, target⟩ :: fixupsAt (position + offsetWidth) base rest

/-- Appends a branch with blank offsets. -/
def emitBranch (branch : Branch Label) (w : Writer) : Writer :=
  let head := branchHead branch
  let blanks := List.replicate (offsetWidth * branch.targets.length) 0
  let table := w.offset + head.length
  { w with
    code := w.code ++ (head ++ blanks)
    fixups := w.fixups ++ fixupsAt table (table + blanks.length) branch.targets }

/-- Gives a label the current offset.  A label that already has one is moved all the same. -/
def markLabel (l : Label) : SinkCall Writer := fun w =>
  let moved := { w with labels := w.labels.insert l w.offset }
  match w.labels.find? l with
  | none => .ok () moved
  | some _ => .error (.duplicateLabel l) moved

/-! ## § Regions -/

/-- Opens a protected block. -/
def beginBlock (region : Region) (w : Writer) : Writer :=
  { w with blocks := w.blocks.insert region { start := w.offset } }

/-- Ends a protected block at the current offset, unless an earlier handler has ended it. -/
def endBlock (tryRegion : Region) (block : ProtectedBlock) (w : Writer) : Writer :=
  match block.stop with
  | none => { w with blocks := w.blocks.insert tryRegion { block with stop := some w.offset } }
  | some _ => w

/-- Opens a handler as the given clause. -/
def openHandler (region : Region) (handler : OpenHandler) (w : Writer) : Writer :=
  { w with handlers := w.handlers.insert region handler }

/-- Opens a handler of an open protected block.  A catch handler after a filter block is described by a
filter clause, which has no room for the exception type. -/
def beginHandler (g : TypeGraph) (region : Region) (kind : RegionKind) (tryRegion : Region) :
    SinkCall Writer := fun w =>
  match w.blocks.find? tryRegion with
  | none => .error (.nesting (.notProtectedBlock tryRegion)) w
  | some block =>
    let w := w.endBlock tryRegion block
    match kind with
    | .tryBlock => .error (.nesting .tryAsHandler) w
    | .filterBlock =>
      let w := { w with pendingFilters := w.pendingFilters.insert tryRegion w.offset }
      .ok () (w.openHandler region { tryRegion, kind := .filterClause, start := w.offset })
    | .catchHandler exception =>
      match w.pendingFilters.find? tryRegion with
      | some filterOffset =>
        let w := { w with pendingFilters := w.pendingFilters.erase tryRegion }
        .ok () (w.openHandler region
          { tryRegion, kind := .filterClause, filterOffset := some filterOffset, start := w.offset })
      | none =>
        let classToken := (g.type exception).token
        .ok () (w.openHandler region { tryRegion, kind := .catchClause, classToken, start := w.offset })
    | .finallyHandler => .ok () (w.openHandler region { tryRegion, kind := .finallyClause, start := w.offset })
    | .faultHandler => .ok () (w.openHandler region { tryRegion, kind := .faultClause, start := w.offset })

/-- Opens a protected block, or a handler if a block is given. -/
def beginRegion (g : TypeGraph) (region : Region) (kind : RegionKind) (tryRegion : Option Region) :
    SinkCall Writer :=
  match tryRegion with
  | none => modify (beginBlock region)
  | some tryRegion => beginHandler g region kind tryRegion

/-- The clause of a handler that ends at the current offset. -/
def clauseOf (handler : OpenHandler) (start stop : Nat) (w : Writer) : ExceptionClause :=
  { kind := handler.kind
    tryOffset := start
    tryLength := stop - start
    handlerOffset := handler.start
    handlerLength := w.offset - handler.start
    classToken := handler.classToken
    filterOffset := handler.filterOffset.getD 0 }

/-- Closes an open handler; anything but a filter block leaves its clause. -/
def endHandler (region : Region) (handler : OpenHandler) : SinkCall Writer := fun w =>
  let w := { w with handlers := w.handlers.erase region }
  if handler.isFilterBlock then .ok () w
  else
    match w.blocks.find? handler.tryRegion with
    | some ⟨start, some stop⟩ =>
      .ok () { w with clauses := w.clauses.push (w.clauseOf handler start stop) }
    | _ => .error (.nesting (.notProtectedBlock handler.tryRegion)) w

/-- Closes an open protected block or else an open handler. -/
def endRegion (region : Region) : SinkCall Writer := fun w =>
  match w.blocks.find? region with
  | some _ => .ok () { w with blocks := w.blocks.erase region }
  | none =>
    match w.handlers.find? region with
    | some handler => endHandler region handler w
    | none => .error (.nesting (.notOpen region)) w

instance : CodeSink Writer where
  emit g insn := modify (emit g insn)
  emitBranch branch := modify (emitBranch branch)
  markLabel := markLabel
  beginRegion := beginRegion
  endRegion := endRegion

/-! ## § Finishing -/

/-- Overwrites consecutive bytes from a position on; bytes beyond the end are dropped. -/
def overwrite (code : Array UInt8) (position : Nat) : List UInt8 → Array UInt8
  | [] => code
  | byte :: rest => overwrite (code.setIfInBounds position byte) (position + 1) rest

/-- Fills in one offset. -/
def resolve (labels : Registry Label Nat) (code : Array UInt8) (fixup : Fixup) :
    Except EmitError (Array UInt8) :=
  match labels.find? fixup.target with
  | some target =>
    .ok (overwrite code fixup.position (littleEndianInt offsetWidth ((target : Int) - fixup.base)))
  | none => .error (.unknownLabel fixup.target)

/-- A region that was never closed: a handler rather than a protected block. -/
def unclosed? (w : Writer) : Option Region := w.handlers.latest?.or w.blocks.latest?

/-- **`finish`** — the method body: all offsets are filled in and no region is open. -/
def finish (w : Writer) : Except EmitError MethodBody := do
  let code ← w.fixups.foldlM (resolve w.labels) w.code
  match w.unclosed? with
  | some region => throw (.nesting (.neverClosed region))
  | none => return { code, clauses := w.clauses, userStrings := w.pool.strings }

end Writer

end ManagedCode.Body
