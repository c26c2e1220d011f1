/-
# ManagedCode.Flow.Journal — what emission has to report.

Emission reports what it does as a list of entries.  An entry is data; its severity and its wording are
functions of it.  Nothing that is verified or emitted depends on the journal.
-/
import ManagedCode.Flow.Record

namespace ManagedCode

/-- How severe an entry is. -/
inductive Severity
  | trace
  | debug
  | warn
  | error
  deriving DecidableEq, Inhabited

namespace Severity

/-- Position in the order from the least to the most severe. -/
def rank : Severity → Nat
  | .trace => 0
  | .debug => 1
  | .warn => 2
  | .error => 3

/-- The name of the severity. -/
def text : Severity → String
  | .trace => "TRACE"
  | .debug => "DEBUG"
  | .warn => "WARN"
  | .error => "ERROR"

end Severity

/-- One thing to report. -/
inductive JournalEntry
  /-- An argument or a receiver of a call is not what the method takes. -/
  | incompatibleArgument (found : TypeTag) (expected : Expect) (method : MethodId)
  /-- A label in unreachable code is reached by a branch that comes later. -/
  | lateEdge (label : Label) (incoming : AbstractStack)
  | emitted (record : InstructionRecord)
  | labelPlaced (label : Label) (resume : AbstractStack)
  | tryStarted (region : Region) (stack : AbstractStack)
  | handlerStarted (kind : RegionKind) (region : Region) (stack : AbstractStack)
  | regionEnded (kind : RegionKind) (region : Region)
  deriving DecidableEq, Inhabited

namespace JournalEntry

/-- The severity of an entry. -/
def severity : JournalEntry → Severity
  | .incompatibleArgument _ _ _ => .error
  | .lateEdge _ _ => .warn
  | .emitted _ => .trace
  | .labelPlaced _ _ | .tryStarted _ _ | .handlerStarted _ _ _ | .regionEnded _ _ => .debug

/-- The wording of an entry. -/
def text (g : TypeGraph) : JournalEntry → String
  | .incompatibleArgument found expected method =>
    s!"Incompatible argument: found {found.name g} but expected {expected.describe g} " ++
      s!"(for {g.methodText method})"
  | .lateEdge label incoming =>
    s!"{label.text} was placed in unreachable code and is only now reached with {incoming.text g}"
  | .emitted record =>
    Text.padTo InstructionRecord.column (record.item.text g) ++ " // " ++ record.stackBefore.text g
  | .labelPlaced label resume => s!"placed {label.text} (stack {resume.text g})"
  | .tryStarted region stack => s!"begin {region.text} (stack {stack.text g})"
  | .handlerStarted kind region stack => s!"begin {kind.text g} {region.text} (stack {stack.text g})"
  | .regionEnded kind region => s!"end {kind.text g} {region.text}"

/-- **`ofFault?`** — what to report about a fault of a straight-line instruction: an operand of a call that
is not what the method takes. -/
def ofFault? (insn : Instruction) : VerifierFault → Option JournalEntry
  | .incompatibleOperand expected found =>
    insn.callee?.map fun method => .incompatibleArgument found expected method
  | _ => none

end JournalEntry

end ManagedCode
