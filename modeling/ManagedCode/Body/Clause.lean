/-
# ManagedCode.Body.Clause — entries of the exception handling table.

A clause says which code is protected, which code handles, and what the handler handles.  Offsets and
lengths are in bytes of the method's code.
-/
import ManagedCode.Body.Bytes

namespace ManagedCode.Body

/-- What a clause handles. -/
inductive ClauseKind
  | catchClause
  | filterClause
  | finallyClause
  | faultClause
  deriving DecidableEq, Inhabited

namespace ClauseKind

/-- The kind as the table writes it. -/
def flags : ClauseKind → Nat
  | .catchClause => 0x0
  | .filterClause => 0x1
  | .finallyClause => 0x2
  | .faultClause => 0x4

/-- The name of the kind. -/
def text : ClauseKind → String
  | .catchClause => "Catch"
  | .filterClause => "Filter"
  | .finallyClause => "Finally"
  | .faultClause => "Fault"

end ClauseKind

/-- An entry of the table. -/
structure ExceptionClause where
  kind : ClauseKind
  tryOffset : Nat
  tryLength : Nat
  handlerOffset : Nat
  handlerLength : Nat
  /-- Token of the exception type; only a catch clause has one. -/
  classToken : UInt32
  /-- Start of the filter block; only a filter clause has one. -/
  filterOffset : Nat
  deriving DecidableEq, Inhabited

namespace ExceptionClause

/-- The last field of the clause: a filter names its block, every other kind the exception type. -/
def discriminator (c : ExceptionClause) : Nat :=
  match c.kind with
  | .filterClause => c.filterOffset
  | _ => c.classToken.toNat

/-- **`bytes`** — the clause in the wide layout: six words of 32 bits. -/
def bytes (c : ExceptionClause) : List UInt8 :=
  [c.kind.flags, c.tryOffset, c.tryLength, c.handlerOffset, c.handlerLength, c.discriminator].flatMap
    (littleEndian 4)

end ExceptionClause

end ManagedCode.Body
