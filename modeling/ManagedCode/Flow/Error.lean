/-
# ManagedCode.Flow.Error — why an emission step is refused.

An error records its cause in the terms of the step that was refused: the instruction, the label, the
region.  The wording is derived from the cause and the graph, which supplies the names.
-/
import ManagedCode.Flow.Region
import ManagedCode.Instruction.Text
import ManagedCode.Stack.Abstract

namespace ManagedCode

/-! ## § What was being verified -/

/-- An operation whose instruction is chosen by the sign of an operand. -/
inductive SignedChoice
  | division
  | remainder
  | rightShift
  | lessThan
  | greaterThan
  | conditionalBranch
  | conversion
  deriving DecidableEq, Inhabited

/-- How such an operation is called before its instruction is known. -/
def SignedChoice.text : SignedChoice → String
  | .division => "div"
  | .remainder => "rem"
  | .rightShift => "shr"
  | .lessThan => "clt"
  | .greaterThan => "cgt"
  | .conditionalBranch => "conditional branch"
  | .conversion => "conv"

/-- The step that did not verify. -/
inductive Subject
  | instruction (insn : Instruction)
  | branch (branch : Branch Label)
  /-- Placing a label. -/
  | placement (label : Label)
  /-- Opening a protected block. -/
  | tryStart
  /-- Opening a handler. -/
  | handlerStart (kind : RegionKind)
  /-- Closing a region. -/
  | regionEnd (region : Region)
  /-- Declaring a local variable. -/
  | localDeclaration (type : TypeId)
  /-- Choosing an instruction by the sign of an operand. -/
  | choice (operation : SignedChoice)
  deriving DecidableEq, Inhabited

/-- The step in diagnostics. -/
def Subject.text (g : TypeGraph) : Subject → String
  | .instruction insn => insn.text g
  | .branch b => b.text Label.text
  | .placement l => l.text ++ ":"
  | .tryStart => ".try"
  | .handlerStart kind => kind.text g
  | .regionEnd r => "end of " ++ r.text
  | .localDeclaration t => "declare local " ++ g.nameOf t
  | .choice operation => operation.text

/-! ## § Regions in the wrong order -/

/-- Why a region cannot be opened or closed, or a branch not stand, at the current point. -/
inductive NestingFault
  /-- Nothing can be opened directly in a protected block that has handlers. -/
  | handlersStarted (region : Region)
  /-- A handler is opened while some other region is the innermost. -/
  | handlerNotDirect (tryRegion innermost : Region) (kind : RegionKind)
  | notOpen (region : Region)
  | tryAsHandler
  | filterNeedsCatch (tryRegion : Region)
  | exclusiveHandler (tryRegion : Region)
  /-- A region is closed while some other region is the innermost. -/
  | closedOutOfOrder (region innermost : Region) (kind : RegionKind)
  | nothingToClose (region : Region)
  | noHandlers (region : Region)
  | filterWithoutCatch (region : Region)
  /-- A branch that only certain regions may hold; `none` is the body itself. -/
  | misplacedBranch (branch : Branch Label) (innermost : Option RegionKind)
  | stillOpen (region : Region) (kind : RegionKind)
  | neverClosed (region : Region)
  | notProtectedBlock (region : Region)
  deriving DecidableEq, Inhabited

/-- The wording of a nesting fault. -/
def NestingFault.message (g : TypeGraph) : NestingFault → String
  | .handlersStarted r => s!"{r.text} already has handlers, so nothing else can be nested in it"
  | .handlerNotDirect r open_ kind =>
    s!"handlers for {r.text} must start directly inside of it, but {open_.text} ({kind.text g}) is open"
  | .notOpen r => s!"{r.text} is not open"
  | .tryAsHandler => "a protected block is not a handler"
  | .filterNeedsCatch r => s!"the filter of {r.text} must be followed by its catch handler"
  | .exclusiveHandler r => s!"a finally or fault handler must be the only handler of {r.text}"
  | .closedOutOfOrder r open_ kind =>
    s!"cannot close {r.text} while {open_.text} ({kind.text g}) is still open inside it"
  | .nothingToClose r => s!"cannot close {r.text}: no region is open"
  | .noHandlers r => s!"{r.text} has no handlers"
  | .filterWithoutCatch r => s!"the filter of {r.text} has no catch handler"
  | .misplacedBranch branch innermost =>
    let place := (innermost.map (RegionKind.text g)).getD "the method body itself"
    s!"`{branch.text Label.text}` is not allowed in {place}"
  | .stillOpen r kind => s!"{r.text} ({kind.text g}) is still open"
  | .neverClosed r => s!"{r.text} was never closed"
  | .notProtectedBlock r => s!"{r.text} is not an open protected block"

/-! ## § Errors -/

/-- Why an emission step is refused. -/
inductive EmitError
  | verification (subject : Subject) (fault : VerifierFault)
  /-- Two edges into a label carry incompatible stacks, given topmost first. -/
  | stackMismatch (label : Label) (expected found : List TypeTag)
  | nesting (fault : NestingFault)
  | duplicateLabel (label : Label)
  | unknownLabel (label : Label)
  /-- The end of the body can be reached, or labels that something jumps to have no place. -/
  | notFinished (fallsThrough : Bool) (unplaced : List Label)
  /-- The receiver of the code could not take it. -/
  | sinkFailed (reason : String)
  deriving DecidableEq, Inhabited

/-- The wording of an emission error. -/
def EmitError.message (g : TypeGraph) : EmitError → String
  | .verification subject fault =>
    s!"verification of `{subject.text g}` failed: {fault.message g}"
  | .stackMismatch label expected found =>
    let names (slots : List TypeTag) := Text.quoteList (slots.reverse.map (TypeTag.name g))
    s!"inconsistent stack at merge point {label.text}: expected {names expected} but found {names found}"
  | .nesting fault => s!"invalid region nesting: {fault.message g}"
  | .duplicateLabel label => s!"label {label.text} is placed more than once"
  | .unknownLabel label => s!"label {label.text} is unknown"
  | .notFinished fallsThrough unplaced =>
    let labels := ", ".intercalate (unplaced.map Label.text)
    s!"method body is not finished (falls through: {fallsThrough}, unplaced labels: [{labels}])"
  | .sinkFailed reason => reason

end ManagedCode
