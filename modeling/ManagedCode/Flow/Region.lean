/-
# ManagedCode.Flow.Region — the handles that the control flow of a body is described with.

Labels name points of the code, regions name protected blocks and handlers.  Both are plain numbers: a
handle that was never handed out is still a handle, and whoever receives it says that it is unknown.
-/
import ManagedCode.Graph.Basic

namespace ManagedCode

/-- A point of the code. -/
structure Label where
  index : Nat
  deriving DecidableEq, Inhabited

/-- A label is written as `L` and its number. -/
def Label.text (l : Label) : String := s!"L{l.index}"

/-- A protected block or one of its handlers. -/
structure Region where
  index : Nat
  deriving DecidableEq, Inhabited

/-- A region is written with its number in parentheses. -/
def Region.text (r : Region) : String := s!"Region({r.index})"

/-- What a region is. -/
inductive RegionKind
  /-- A protected block. -/
  | tryBlock
  /-- Handles exceptions assignable to the type. -/
  | catchHandler (exception : TypeId)
  /-- Decides whether the catch handler that follows it should run. -/
  | filterBlock
  /-- Runs only if the protected block exits with an exception. -/
  | faultHandler
  /-- Runs however the protected block exits. -/
  | finallyHandler
  deriving DecidableEq, Inhabited

namespace RegionKind

/-- Every region but a protected block is a handler. -/
def isHandler : RegionKind → Bool
  | .tryBlock => false
  | _ => true

/-- The region is a catch handler. -/
def isCatch : RegionKind → Bool
  | .catchHandler _ => true
  | _ => false

/-- A finally or fault handler cannot share its protected block with another handler. -/
def isExclusive : RegionKind → Bool
  | .finallyHandler | .faultHandler => true
  | _ => false

/-- The kind in diagnostics. -/
def text (g : TypeGraph) : RegionKind → String
  | .tryBlock => "Try"
  | .catchHandler t => s!"Catch({g.nameOf t})"
  | .filterBlock => "Filter"
  | .faultHandler => "Fault"
  | .finallyHandler => "Finally"

end RegionKind

end ManagedCode
