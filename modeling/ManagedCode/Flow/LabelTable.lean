/-
# ManagedCode.Flow.LabelTable — labels and the stack recorded for each.

The first reachable edge to arrive at a label records its stack.  Every later edge, be it a branch or the
fall-through at the label's own place, must be compatible with that record; nothing is ever merged or
widened.  Edges from unreachable code are ignored.
-/
import ManagedCode.Flow.Error

namespace ManagedCode

/-! ## § The life of a label -/

/-- Where a label is in its life. -/
inductive LabelState
  /-- Nothing has reached it and it has no place. -/
  | pending
  /-- An edge has recorded its slots, and the label has no place yet. -/
  | bound (slots : List TypeTag)
  /-- The label has a place; the record is unreachable as long as nothing has reached it. -/
  | placed (recorded : AbstractStack)
  deriving DecidableEq, Inhabited

namespace LabelState

/-- The slots that every further edge must be compatible with. -/
def record? : LabelState → Option (List TypeTag)
  | .pending => none
  | .bound slots => some slots
  | .placed recorded => recorded.slots?

/-- The label has a place. -/
def isPlaced : LabelState → Bool
  | .placed _ => true
  | _ => false

/-- Some edge has reached the label, but it has no place. -/
def isBound : LabelState → Bool
  | .bound _ => true
  | _ => false

/-- The label has a place in code that nothing had reached. -/
def isPlacedUnreached : LabelState → Bool
  | .placed .unreachable => true
  | _ => false

/-- The state after an edge with the given slots: only the first one leaves a trace. -/
def receive (slots : List TypeTag) : LabelState → LabelState
  | .pending => .bound slots
  | .placed .unreachable => .placed (.reachable slots)
  | state => state

end LabelState

/-! ## § The table -/

/-- All labels of one body; the handle of a label is its position. -/
structure LabelTable where
  states : Array LabelState := #[]
  deriving DecidableEq, Inhabited

namespace LabelTable

/-- A table without labels. -/
def empty : LabelTable := {}

/-- The label that is defined next. -/
def fresh (t : LabelTable) : Label := ⟨t.states.size⟩

/-- **`define`** — a fresh label, which is pending. -/
def define (t : LabelTable) : Label × LabelTable :=
  (t.fresh, { t with states := t.states.push .pending })

/-- The state of a label, if the table knows it. -/
def state? (t : LabelTable) (l : Label) : Option LabelState := t.states[l.index]?

/-- The table with another state for a label; a label that the table does not know changes nothing. -/
def setState (t : LabelTable) (l : Label) (state : LabelState) : LabelTable :=
  { t with states := t.states.setIfInBounds l.index state }

/-- The state of a label, or the error that the table does not know it. -/
def state (t : LabelTable) (l : Label) : Except EmitError LabelState :=
  match t.state? l with
  | some state => .ok state
  | none => .error (.unknownLabel l)

/-- Fails if the table does not know the label. -/
def check (t : LabelTable) (l : Label) : Except EmitError Unit := (t.state l).map fun _ => ()

/-- The stack recorded for a label: nothing until an edge has reached it or it has a place. -/
def recorded? (t : LabelTable) (l : Label) : Option AbstractStack :=
  (t.state? l).bind fun
    | .pending => none
    | .bound slots => some (.reachable slots)
    | .placed recorded => some recorded

/-- The label has a place. -/
def isPlaced (t : LabelTable) (l : Label) : Bool := (t.state? l).any (·.isPlaced)

/-! ## § Edges -/

/-- **`checkEdge`** — an edge with the given stack could reach the label; nothing is recorded. -/
def checkEdge (g : TypeGraph) (t : LabelTable) (l : Label) (incoming : AbstractStack) :
    Except EmitError Unit :=
  match t.state? l with
  | none => .error (.unknownLabel l)
  | some state =>
    match incoming.slots?, state.record? with
    | some found, some expected =>
      if AbstractStack.slotsCompatible g found expected then .ok ()
      else .error (.stackMismatch l expected found)
    | _, _ => .ok ()

/-- The table after an edge that was accepted. -/
def recordEdge (t : LabelTable) (l : Label) (incoming : AbstractStack) : LabelTable :=
  match t.state? l, incoming with
  | some state, .reachable slots => t.setState l (state.receive slots)
  | _, _ => t

/-- **`reconcile`** — accounts for an edge into the label.  Repeating an edge changes nothing. -/
def reconcile (g : TypeGraph) (t : LabelTable) (l : Label) (incoming : AbstractStack) :
    Except EmitError LabelTable := do
  t.checkEdge g l incoming
  return t.recordEdge l incoming

/-- The edge is the first to reach a label that was placed in unreachable code.  What follows the label
has then been emitted without checks. -/
def isLateEdge (t : LabelTable) (l : Label) (incoming : AbstractStack) : Bool :=
  incoming.isReachable && (t.state? l).any (·.isPlacedUnreached)

/-- **`place`** — gives the label the current point of the code.  The fall-through is reconciled like any
other edge, and the record is the stack that the code after the label starts with. -/
def place (g : TypeGraph) (t : LabelTable) (l : Label) (fallThrough : AbstractStack) :
    Except EmitError (AbstractStack × LabelTable) := do
  if (← t.state l).isPlaced then throw (.duplicateLabel l)
  let t ← t.reconcile g l fallThrough
  let resume := (t.recorded? l).getD .unreachable
  return (resume, t.setState l (.placed resume))

/-- **`unplaced`** — labels that some edge has reached and that have no place, in increasing order. -/
def unplaced (t : LabelTable) : List Label :=
  ((List.range t.states.size).map Label.mk).filter fun l => (t.state? l).any (·.isBound)

end LabelTable

end ManagedCode
