/-
# ManagedCode.Flow.RegionTracker — the open exception regions.

Regions close in the reverse of the order in which they opened.  A protected block stays open until after
its last handler; its handlers are opened while it is the innermost region:

    protected block ─┬─ body
                     ├─ catch … end
                     ├─ filter … end, catch … end
                     └─ end

A finally or a fault is the only handler of its block.  Once a block has a handler nothing else opens
directly inside it.
-/
import ManagedCode.Flow.Error

namespace ManagedCode

/-! ## § Open regions -/

/-- An open region. -/
structure OpenRegion where
  region : Region
  kind : RegionKind
  /-- The protected block the region belongs to; a protected block belongs to itself. -/
  tryRegion : Region
  /-- The point right after the whole construct, shared by the block and its handlers. -/
  endLabel : Label
  /-- Handlers opened so far; stays 0 for a handler. -/
  handlers : Nat := 0
  /-- A filter has been closed and the catch handler it guards has not been opened. -/
  awaitsCatch : Bool := false
  /-- One of the handlers is a finally or a fault. -/
  hasExclusive : Bool := false
  deriving DecidableEq, Inhabited

/-- What opening a handler involves. -/
structure HandlerEntry where
  endLabel : Label
  /-- The protected block itself ends where the handler starts. -/
  endsBlock : Bool
  deriving DecidableEq, Inhabited

/-- The open regions, innermost first, and the number of the next one. -/
structure RegionTracker where
  opened : List OpenRegion := []
  next : Nat := 0
  deriving DecidableEq, Inhabited

namespace RegionTracker

/-- Nothing is open. -/
def empty : RegionTracker := {}

/-- The region that would have to be closed first. -/
def innermost? (t : RegionTracker) : Option OpenRegion := t.opened.head?

/-- Nothing is open. -/
def isEmpty (t : RegionTracker) : Bool := t.opened.isEmpty

/-- The kind of the nearest enclosing handler; protected blocks in between do not matter. -/
def enclosingHandler? (t : RegionTracker) : Option RegionKind :=
  (t.opened.map OpenRegion.kind).find? RegionKind.isHandler

/-- The tracker with the innermost region replaced by its image. -/
def updateInnermost (t : RegionTracker) (change : OpenRegion → OpenRegion) : RegionTracker :=
  match t.opened with
  | [] => t
  | open_ :: rest => { t with opened := change open_ :: rest }

/-! ## § Opening -/

/-- **`beginTry`** — opens a protected block that ends at the label. -/
def beginTry (t : RegionTracker) (endLabel : Label) : Except NestingFault (Region × RegionTracker) :=
  match t.innermost?.filter fun o => o.kind == .tryBlock && o.handlers != 0 with
  | some o => .error (.handlersStarted o.region)
  | none =>
    let region : Region := ⟨t.next⟩
    let opened : OpenRegion := { region, kind := .tryBlock, tryRegion := region, endLabel }
    .ok (region, { opened := opened :: t.opened, next := t.next + 1 })

/-- The innermost region, if it is the given protected block. -/
def innermostTry (t : RegionTracker) (tryRegion : Region) : Except NestingFault OpenRegion :=
  match t.innermost? with
  | some o =>
    if o.region == tryRegion && o.kind == .tryBlock then .ok o
    else .error (.handlerNotDirect tryRegion o.region o.kind)
  | none => .error (.notOpen tryRegion)

/-- **`checkHandler`** — a handler of the kind can be opened for the protected block now. -/
def checkHandler (t : RegionTracker) (tryRegion : Region) (kind : RegionKind) :
    Except NestingFault HandlerEntry := do
  let o ← t.innermostTry tryRegion
  if !kind.isHandler then throw .tryAsHandler
  if o.awaitsCatch && !kind.isCatch then throw (.filterNeedsCatch tryRegion)
  if o.hasExclusive || (kind.isExclusive && o.handlers != 0) then throw (.exclusiveHandler tryRegion)
  return { endLabel := o.endLabel, endsBlock := o.handlers == 0 }

/-- **`beginHandler`** — opens a handler for the protected block. -/
def beginHandler (t : RegionTracker) (tryRegion : Region) (kind : RegionKind) :
    Except NestingFault (Region × RegionTracker) := do
  let entry ← t.checkHandler tryRegion kind
  let region : Region := ⟨t.next⟩
  let t := t.updateInnermost fun o =>
    { o with
      handlers := o.handlers + 1
      awaitsCatch := false
      hasExclusive := o.hasExclusive || kind.isExclusive }
  let opened : OpenRegion := { region, kind, tryRegion, endLabel := entry.endLabel }
  return (region, { opened := opened :: t.opened, next := t.next + 1 })

/-! ## § Closing -/

/-- **`checkEnd`** — the region is the innermost one and complete. -/
def checkEnd (t : RegionTracker) (region : Region) : Except NestingFault OpenRegion := do
  match t.innermost? with
  | none => throw (.nothingToClose region)
  | some o =>
    if o.region != region then throw (.closedOutOfOrder region o.region o.kind)
    if o.kind == .tryBlock then
      if o.handlers == 0 then throw (.noHandlers region)
      if o.awaitsCatch then throw (.filterWithoutCatch region)
    return o

/-- **`endRegion`** — closes the innermost region.  A closed filter leaves its protected block waiting for
the catch handler. -/
def endRegion (t : RegionTracker) (region : Region) :
    Except NestingFault (OpenRegion × RegionTracker) := do
  let closed ← t.checkEnd region
  let t := { t with opened := t.opened.tail }
  let t :=
    if closed.kind == .filterBlock then t.updateInnermost fun o => { o with awaitsCatch := true } else t
  return (closed, t)

end RegionTracker

end ManagedCode
