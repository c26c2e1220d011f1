/-
# ManagedCode.Sink.Basic — receivers of verified code.

A sink takes the verified code in the order of emission and lays it out in its own way.  All that it takes
has been checked already, so it never reasons about stacks.  A call that fails may still have changed the
sink: the state after the failure is part of the outcome.
-/
import ManagedCode.Flow.Error
import ManagedCode.Flow.Record

namespace ManagedCode

/-- What a call on a state may do: answer or fail, with the state it leaves behind in either case. -/
abbrev SinkCall (σ : Type) := EStateM EmitError σ Unit

/-- **`CodeSink`** — a state that takes verified code. -/
class CodeSink (σ : Type) where
  emit : TypeGraph → Instruction → SinkCall σ
  emitBranch : Branch Label → SinkCall σ
  /-- The next instruction is the target of the label. -/
  markLabel : Label → SinkCall σ
  /-- Opens a protected block, if no block is given, or a handler of the given block. -/
  beginRegion : TypeGraph → Region → RegionKind → (tryRegion : Option Region) → SinkCall σ
  endRegion : Region → SinkCall σ

/-! ## § Remembering everything -/

/-- One call on a sink. -/
inductive SinkEvent
  | code (item : CodeItem)
  | label (label : Label)
  | beginRegion (region : Region) (kind : RegionKind)
  | endRegion (region : Region)
  deriving DecidableEq, Inhabited

/-- The sink that remembers what it was sent, and never fails. -/
structure Recording where
  events : Array SinkEvent := #[]
  deriving DecidableEq, Inhabited

namespace Recording

/-- Nothing was sent yet. -/
def empty : Recording := {}

/-- Appends an event. -/
def push (event : SinkEvent) : SinkCall Recording := modify fun r => { events := r.events.push event }

instance : CodeSink Recording where
  emit _ insn := push (.code (.straight insn))
  emitBranch branch := push (.code (.branch branch))
  markLabel label := push (.label label)
  beginRegion _ region kind _ := push (.beginRegion region kind)
  endRegion region := push (.endRegion region)

/-- The instructions among the events, in order. -/
def items (r : Recording) : List CodeItem :=
  r.events.toList.filterMap fun
    | .code item => some item
    | _ => none

end Recording

/-! ## § Sinks made of sinks -/

/-- Makes two calls on two states one after the other; the second is made only if the first succeeds. -/
def SinkCall.both {σ τ : Type} (first : SinkCall σ) (second : SinkCall τ) : SinkCall (σ × τ) :=
  fun (s, t) =>
    match first s with
    | .error e s' => .error e (s', t)
    | .ok () s' =>
      match second t with
      | .error e t' => .error e (s', t')
      | .ok () t' => .ok () (s', t')

/-- Two sinks take every call, one after the other. -/
instance {σ τ : Type} [CodeSink σ] [CodeSink τ] : CodeSink (σ × τ) where
  emit g insn := SinkCall.both (CodeSink.emit g insn) (CodeSink.emit g insn)
  emitBranch b := SinkCall.both (CodeSink.emitBranch b) (CodeSink.emitBranch b)
  markLabel l := SinkCall.both (CodeSink.markLabel l) (CodeSink.markLabel l)
  beginRegion g r kind owner :=
    SinkCall.both (CodeSink.beginRegion g r kind owner) (CodeSink.beginRegion g r kind owner)
  endRegion r := SinkCall.both (CodeSink.endRegion r) (CodeSink.endRegion r)

/-- A sink that fails at chosen calls.  Calls are counted from 0, those that fail included; a failing call
does not reach the sink behind it. -/
structure Interrupted (σ : Type) where
  inner : σ
  failures : List Nat
  calls : Nat := 0
  deriving Inhabited

namespace Interrupted

variable {σ : Type}

/-- The text of a chosen failure. -/
def reason : String := "sink failure"

/-- Counts a call, and makes it unless it is chosen to fail. -/
def guard (call : SinkCall σ) : SinkCall (Interrupted σ) := fun ⟨inner, failures, calls⟩ =>
  if failures.contains calls then .error (.sinkFailed reason) ⟨inner, failures, calls + 1⟩
  else
    match call inner with
    | .ok () inner' => .ok () ⟨inner', failures, calls + 1⟩
    | .error e inner' => .error e ⟨inner', failures, calls + 1⟩

instance [CodeSink σ] : CodeSink (Interrupted σ) where
  emit g insn := guard (CodeSink.emit g insn)
  emitBranch b := guard (CodeSink.emitBranch b)
  markLabel l := guard (CodeSink.markLabel l)
  beginRegion g r kind owner := guard (CodeSink.beginRegion g r kind owner)
  endRegion r := guard (CodeSink.endRegion r)

end Interrupted

end ManagedCode
