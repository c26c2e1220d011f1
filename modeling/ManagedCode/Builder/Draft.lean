/-
# ManagedCode.Builder.Draft — what is known about a body while it is being built.

The draft holds the results of verification: the current stack, the labels and regions, and a record per
instruction.  It never looks at a sink.  Operations that may fail are split into a check that changes
nothing and an update that cannot fail.
-/
import ManagedCode.Flow.Journal
import ManagedCode.Flow.LabelTable
import ManagedCode.Flow.RegionTracker

namespace ManagedCode

/-- A local variable of a body. -/
structure LocalSlot where
  index : UInt16
  deriving DecidableEq, Inhabited

/-- The verified part of a method body in the making. -/
structure Draft where
  graph : TypeGraph
  system : SystemTypes
  method : MethodId
  /-- Argument types, the receiver of an instance method first. -/
  arguments : Array TypeId
  locals : Array TypeId := #[]
  /-- The stack before the next instruction. -/
  stack : AbstractStack := .empty
  labels : LabelTable := {}
  regions : RegionTracker := {}
  records : Array InstructionRecord := #[]
  /-- The type of a `constrained.` qualifier that waits for its `callvirt`. -/
  constrained : Option TypeId := none
  /-- The greatest depth the stack has had after an instruction or at the start of a handler. -/
  maxStack : Nat := 0
  /-- What there is to report, latest first. -/
  journal : List JournalEntry := []
  deriving Inhabited

namespace Draft

/-! ## § The start -/

/-- **`start`** — an empty body of a method.  The receiver of an instance method is its first argument; a
value type is received by reference, and that reference type is then in the graph. -/
def start (g : TypeGraph) (system : SystemTypes) (method : MethodId) : Draft :=
  let entry := g.method method
  if entry.isStatic then { graph := g, system, method, arguments := entry.parameters.toArray }
  else if (g.type entry.owner).isValueType then
    let (receiver, g) := g.byRef entry.owner
    { graph := g, system, method, arguments := (receiver :: entry.parameters).toArray }
  else { graph := g, system, method, arguments := (entry.owner :: entry.parameters).toArray }

/-- The context that the next instruction is verified in. -/
def context (d : Draft) : MethodContext :=
  { system := d.system
    arguments := d.arguments
    locals := d.locals
    returnType := (d.graph.method d.method).returnType
    constrained := d.constrained }

/-! ## § Checks -/

/-- A `constrained.` qualifier admits nothing but a virtual call next. -/
def checkUnqualified (d : Draft) (subject : Subject) : Except EmitError Unit :=
  match d.constrained with
  | none => .ok ()
  | some _ => .error (.verification subject .danglingPrefix)

/-- All of a list of labels are known; the first unknown one is reported. -/
def checkLabels (d : Draft) : List Label → Except EmitError Unit
  | [] => .ok ()
  | l :: rest => do d.labels.check l; checkLabels d rest

/-- An edge with the given stack could reach every label of a list; the first misfit is reported. -/
def checkEdges (d : Draft) (delivered : AbstractStack) : List Label → Except EmitError Unit
  | [] => .ok ()
  | l :: rest => do d.labels.checkEdge d.graph l delivered; checkEdges d delivered rest

/-- A branch that belongs to certain regions stands in one of them. -/
def mayStand (d : Draft) {Target : Type} (branch : Branch Target) : Bool :=
  let innermost := d.regions.innermost?.map OpenRegion.kind
  match branch with
  | .rethrow => d.regions.enclosingHandler?.any RegionKind.isCatch
  | .endfinally => innermost.any RegionKind.isExclusive
  | .endfilter => innermost == some .filterBlock
  | .ret => innermost.isNone
  | _ => true

/-- Refuses a branch where it may not stand. -/
def checkPlacement (d : Draft) (branch : Branch Label) : Except EmitError Unit :=
  if d.mayStand branch then .ok ()
  else .error (.nesting (.misplacedBranch branch (d.regions.innermost?.map OpenRegion.kind)))

/-- The stacks after a branch, once it is known to verify here and to fit all of its targets. -/
def checkBranch (d : Draft) (branch : Branch Label) : Except EmitError AbstractStack.Jump := do
  d.checkUnqualified (.branch branch)
  d.checkLabels branch.targets
  d.checkPlacement branch
  let jump ← (d.stack.jump d.graph d.context branch).mapError (.verification (.branch branch))
  d.checkEdges jump.delivered branch.targets
  return jump

/-! ## § Updates -/

/-- Adds a report. -/
def note (entry : JournalEntry) (d : Draft) : Draft := { d with journal := entry :: d.journal }

/-- Continues with another stack, whose depth counts. -/
def withStack (stack : AbstractStack) (d : Draft) : Draft :=
  { d with stack, maxStack := max d.maxStack (stack.depth?.getD 0) }

/-- Adds the record of an instruction that is about to change the stack. -/
def record (item : CodeItem) (d : Draft) : Draft :=
  { d with records := d.records.push ⟨item, d.stack⟩ }

/-- Makes sure that the result type of an instruction is in the graph, unless the code is dead. -/
def addResultTypes (insn : Instruction) (d : Draft) : Draft :=
  if d.stack.isReachable then { d with graph := d.graph.withResultTypes insn } else d

/-- The draft after a straight-line instruction that leaves the given stack. -/
def commitInstruction (insn : Instruction) (after : AbstractStack) (d : Draft) : Draft :=
  { (d.record (.straight insn)).withStack after with constrained := insn.constrained? }

/-- Records an edge into a label, and reports it if the label has long been placed in dead code. -/
def receiveEdge (delivered : AbstractStack) (d : Draft) (l : Label) : Draft :=
  let late := d.labels.isLateEdge l delivered
  let d := { d with labels := d.labels.recordEdge l delivered }
  if late then d.note (.lateEdge l delivered) else d

/-- The draft after a branch: its edges are recorded in the order of the targets. -/
def commitBranch (branch : Branch Label) (jump : AbstractStack.Jump) (d : Draft) : Draft :=
  ((branch.targets.foldl (receiveEdge jump.delivered) d).record (.branch branch)).withStack jump.next

/-! ## § Regions -/

/-- The stack that a handler starts with: the caught exception, if there is one. -/
def handlerStack (d : Draft) : RegionKind → AbstractStack
  | .catchHandler exception => .reachable [.value exception]
  | .filterBlock => .reachable [.value d.system.exception]
  | .tryBlock | .faultHandler | .finallyHandler => .empty

end Draft

/-- The branch that leaves a region whose end is reachable. -/
def OpenRegion.exit (o : OpenRegion) : Branch Label :=
  match o.kind with
  | .tryBlock | .catchHandler _ => .leave o.endLabel
  | .filterBlock => .endfilter
  | .faultHandler | .finallyHandler => .endfinally

end ManagedCode
