/-
# ManagedCode.Builder.Basic — building a method body one step at a time.

A builder verifies each step against its draft and only then forwards it to the sink.  The first edge to
reach a label records the stack there, and every other edge must be compatible with it; no fixpoint is
computed.  After an instruction that does not fall through the code is dead until a label that something
jumps to: dead code is forwarded without checks.  Control never falls out of a protected block or a handler:
where the end of one is reachable the builder emits the exit itself, and that exit is verified like any
other branch.

A step that is refused leaves the state it had reached, which the outcome carries along with the error.
-/
import ManagedCode.Builder.Draft
import ManagedCode.Sink.Basic

namespace ManagedCode

/-- A draft and the sink that receives its code. -/
structure Builder (σ : Type) where
  draft : Draft
  sink : σ
  deriving Inhabited

/-- A step of building: it answers or is refused, and leaves a builder in either case. -/
abbrev Build (σ α : Type) := EStateM EmitError (Builder σ) α

/-- What remains of a builder once the body is complete. -/
structure FinishedCode (σ : Type) where
  sink : σ
  records : Array InstructionRecord
  maxStack : Nat
  locals : Array TypeId
  deriving Inhabited

namespace Builder

variable {σ α : Type}

/-! ## § Parts of a step -/

/-- A builder for the body of a method. -/
def start (g : TypeGraph) (system : SystemTypes) (method : MethodId) (sink : σ) : Builder σ :=
  ⟨.start g system method, sink⟩

/-- Reads the draft. -/
def view (read : Draft → α) : Build σ α := fun b => .ok (read b.draft) b

/-- Changes the draft. -/
def update (change : Draft → Draft) : Build σ Unit := fun ⟨draft, sink⟩ => .ok () ⟨change draft, sink⟩

/-- Reads the draft and is refused if the reading is. -/
def check (read : Draft → Except EmitError α) : Build σ α := fun b =>
  match read b.draft with
  | .ok a => .ok a b
  | .error e => .error e b

/-- Makes a call on the sink. -/
def forward (call : SinkCall σ) : Build σ Unit := fun ⟨draft, sink⟩ =>
  match call sink with
  | .ok () sink => .ok () ⟨draft, sink⟩
  | .error e sink => .error e ⟨draft, sink⟩

/-! ## § Locals and labels -/

/-- The number of local variables that indices can tell apart. -/
def localLimit : Nat := 65536

/-- **`declareLocal`** — adds a local variable. -/
def declareLocal (type : TypeId) : Build σ LocalSlot := do
  let count ← view (·.locals.size)
  if count < localLimit then
    update fun d => { d with locals := d.locals.push type }
    return ⟨UInt16.ofNat count⟩
  else throw (.verification (.localDeclaration type) (.invalidIndex (localLimit - 1)))

/-- **`defineLabel`** — a fresh label. -/
def defineLabel : Build σ Label := do
  let l ← view (·.labels.fresh)
  update fun d => { d with labels := d.labels.define.2 }
  return l

variable [CodeSink σ]

/-- **`markLabel`** — places a label at the current point.  It is refused if the label has a place already,
or if the fall-through does not fit the stack recorded by a branch. -/
def markLabel (l : Label) : Build σ Unit := do
  check (·.checkUnqualified (.placement l))
  let (resume, labels) ← check fun d => d.labels.place d.graph l d.stack
  update fun d => { d with labels }
  forward (CodeSink.markLabel l)
  update fun d => { d with stack := resume }.note (.labelPlaced l resume)

/-! ## § Instructions -/

/-- The stack after a straight-line instruction, if it verifies here. -/
def verify (insn : Instruction) : Build σ AbstractStack := do
  update (·.addResultTypes insn)
  match ← view fun d => d.stack.step d.graph d.context insn with
  | .ok after => return after
  | .error fault =>
    match JournalEntry.ofFault? insn fault with
    | some entry => update (·.note entry)
    | none => pure ()
    throw (.verification (.instruction insn) fault)

/-- **`pushInstruction`** — emits a straight-line instruction. -/
def pushInstruction (insn : Instruction) : Build σ Unit := do
  if !insn.isVirtualCall then check (·.checkUnqualified (.instruction insn))
  let after ← verify insn
  forward (CodeSink.emit (← view (·.graph)) insn)
  update fun d => d.note (.emitted ⟨.straight insn, d.stack⟩)
  update (·.commitInstruction insn after)

/-- **`pushBranch`** — emits a branch.  All targets must accept the delivered stack before any of them
records it. -/
def pushBranch (branch : Branch Label) : Build σ Unit := do
  let jump ← check (·.checkBranch branch)
  forward (CodeSink.emitBranch branch)
  update fun d => d.note (.emitted ⟨.branch branch, d.stack⟩)
  update (·.commitBranch branch jump)

/-! ## § Exception regions -/

/-- Reads the regions and is refused if they are in the wrong order. -/
def checkRegions (read : RegionTracker → Except NestingFault α) : Build σ α :=
  check fun d => (read d.regions).mapError .nesting

/-- **`beginTry`** — opens a protected block, which starts with the current stack. -/
def beginTry : Build σ Region := do
  check (·.checkUnqualified .tryStart)
  let endLabel ← defineLabel
  let (region, regions) ← checkRegions (·.beginTry endLabel)
  update fun d => { d with regions }
  forward (CodeSink.beginRegion (← view (·.graph)) region .tryBlock none)
  update fun d => d.note (.tryStarted region d.stack)
  return region

/-- **`beginHandler`** — opens a handler for the innermost protected block.  The first handler ends the
block, which is left first if its end is reachable. -/
def beginHandler (tryRegion : Region) (kind : RegionKind) : Build σ Region := do
  check (·.checkUnqualified (.handlerStart kind))
  let entry ← checkRegions (·.checkHandler tryRegion kind)
  if entry.endsBlock && (← view (·.stack.isReachable)) then pushBranch (.leave entry.endLabel)
  let (region, regions) ← checkRegions (·.beginHandler tryRegion kind)
  update fun d => { d with regions }
  forward (CodeSink.beginRegion (← view (·.graph)) region kind (some tryRegion))
  update fun d => d.withStack (d.handlerStack kind)
  update fun d => d.note (.handlerStarted kind region d.stack)
  return region

/-- **`endRegion`** — closes the innermost region.  A handler is left first if its end is reachable; a
protected block places the label right after the whole construct. -/
def endRegion (region : Region) : Build σ Unit := do
  check (·.checkUnqualified (.regionEnd region))
  let o ← checkRegions (·.checkEnd region)
  if o.kind.isHandler && (← view (·.stack.isReachable)) then pushBranch o.exit
  let (_, regions) ← checkRegions (·.endRegion region)
  update fun d => { d with regions }
  forward (CodeSink.endRegion region)
  update (·.note (.regionEnded o.kind region))
  if o.kind == .tryBlock then markLabel o.endLabel

/-! ## § The end -/

/-- The body is complete: no region is open, no qualifier waits, the end cannot be reached, and every label
that something jumps to has a place. -/
def checkFinished (d : Draft) : Except EmitError Unit := do
  match d.regions.innermost? with
  | some o => throw (.nesting (.stillOpen o.region o.kind))
  | none => pure ()
  match d.constrained with
  | some t => throw (.verification (.instruction (.constrained t)) .danglingPrefix)
  | none => pure ()
  let unplaced := d.labels.unplaced
  let fallsThrough := d.stack.isReachable
  if fallsThrough || !unplaced.isEmpty then throw (.notFinished fallsThrough unplaced)

omit [CodeSink σ] in
/-- **`finish`** — the finished body of a builder. -/
def finish (b : Builder σ) : Except EmitError (FinishedCode σ) := do
  checkFinished b.draft
  return {
    sink := b.sink
    records := b.draft.records
    maxStack := b.draft.maxStack
    locals := b.draft.locals }

end Builder

end ManagedCode
