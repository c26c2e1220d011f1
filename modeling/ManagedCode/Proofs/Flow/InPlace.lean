/-
# ManagedCode.Proofs.Flow.InPlace — label tables and region trackers that calls change in place.

An operation on a label table or a region tracker answers a changed one, or is refused and answers none.
Here the same operations are programs that change one table or tracker step by step: what a program has done
when it is refused is done.  They agree with the operations (`settled`), so nothing is ever left half done.
That is because each program makes its checks before its first change; looking a label up again afterwards,
or taking the innermost region off the stack, cannot fail any more.

A tracker that is changed in place counts its regions in a word of 32 bits.  The operations count without end,
and the two agree until the word starts again from 0 (`RegionTracker.wrapped`).
-/
import ManagedCode.Proofs.Flow.Labels
import ManagedCode.Proofs.Flow.Regions

namespace ManagedCode

/-! ## § Programs -/

/-- A program over a state: it answers or is refused, and leaves a state in either case. -/
abbrev InPlace (ε σ α : Type) := EStateM ε σ α

namespace InPlace

variable {ε σ α β : Type}

/-- Reads the state and is refused if the reading is. -/
def reading (read : σ → Except ε α) : InPlace ε σ α := fun s =>
  match read s with
  | .ok a => .ok a s
  | .error e => .error e s

/-- Changes the state. -/
def change (f : σ → σ) : InPlace ε σ Unit := fun s => .ok () (f s)

/-- What an operation answers, with the state it was asked for if it is refused. -/
def settled (s : σ) : Except ε (α × σ) → EStateM.Result ε σ α
  | .ok (a, s') => .ok a s'
  | .error e => .error e s

theorem bind_run (x : InPlace ε σ α) (f : α → InPlace ε σ β) (s : σ) :
    (x >>= f) s =
      match x s with
      | .ok a s' => f a s'
      | .error e s' => .error e s' := by
  show EStateM.bind x f s = _
  rw [EStateM.bind]
  cases x s <;> rfl

theorem map_run (f : α → β) (x : InPlace ε σ α) (s : σ) :
    (f <$> x) s =
      match x s with
      | .ok a s' => .ok (f a) s'
      | .error e s' => .error e s' := by
  show EStateM.map f x s = _
  rw [EStateM.map]
  cases x s <;> rfl

theorem reading_run (read : σ → Except ε α) (s : σ) :
    reading read s =
      match read s with
      | .ok a => .ok a s
      | .error e => .error e s := rfl

theorem change_run (f : σ → σ) (s : σ) : (change f : InPlace ε σ Unit) s = .ok () (f s) := rfl

/-- What is refused leaves the state as it was. -/
theorem settled_eq_error {s s' : σ} {outcome : Except ε (α × σ)} {e : ε}
    (h : settled s outcome = .error e s') : s' = s := by
  cases outcome with
  | ok answer => cases h
  | error e =>
    cases h
    rfl

theorem settled_eq_ok {s s' : σ} {outcome : Except ε (α × σ)} {a : α} :
    settled s outcome = .ok a s' ↔ outcome = .ok (a, s') := by
  cases outcome with
  | ok answer => simp [settled, Prod.ext_iff]
  | error e => simp [settled]

end InPlace

open InPlace

/-! ## § Labels -/

namespace LabelTable

/-- Accounts for an edge: the state of the label is looked up once more after the check. -/
def reconcileInPlace (g : TypeGraph) (l : Label) : AbstractStack → InPlace EmitError LabelTable Unit
  | .unreachable => reading (·.checkEdge g l .unreachable)
  | .reachable slots => do
    reading (·.checkEdge g l (.reachable slots))
    let state ← reading (·.state l)
    change (·.setState l (state.receive slots))

/-- Gives the label a place: by then the fall-through has been recorded. -/
def placeInPlace (g : TypeGraph) (l : Label) (fallThrough : AbstractStack) :
    InPlace EmitError LabelTable AbstractStack := do
  let state ← reading (·.state l)
  reading fun _ => if state.isPlaced then .error (.duplicateLabel l) else .ok ()
  reconcileInPlace g l fallThrough
  let state ← reading (·.state l)
  let resume : AbstractStack :=
    match state with
    | .bound slots => .reachable slots
    | _ => .unreachable
  change (·.setState l (.placed resume))
  return resume

theorem reconcileInPlace_eq (g : TypeGraph) (l : Label) (incoming : AbstractStack) (t : LabelTable) :
    reconcileInPlace g l incoming t = settled t ((t.reconcile g l incoming).map ((), ·)) := by
  cases hedge : t.checkEdge g l incoming with
  | error e =>
    have hreconcile : t.reconcile g l incoming = .error e := by
      rw [reconcile, hedge]
      rfl
    rw [hreconcile]
    cases incoming <;> simp only [reconcileInPlace, bind_run, reading_run, hedge] <;> rfl
  | ok _ =>
    obtain ⟨state, hstate, -⟩ := checkEdge_ok_iff.mp hedge
    have hreconcile : t.reconcile g l incoming = .ok (t.recordEdge l incoming) := by
      rw [reconcile, hedge]
      rfl
    rw [hreconcile]
    cases incoming with
    | unreachable =>
      simp only [reconcileInPlace, reading_run, hedge, recordEdge, hstate]
      rfl
    | reachable slots =>
      simp only [reconcileInPlace, bind_run, reading_run, hedge, state_eq_ok hstate, change_run, recordEdge,
        hstate]
      rfl

theorem placeInPlace_eq (g : TypeGraph) (l : Label) (fallThrough : AbstractStack) (t : LabelTable) :
    placeInPlace g l fallThrough t = settled t (t.place g l fallThrough) := by
  rw [place_eq]
  cases hstate : t.state l with
  | error e =>
    simp only [placeInPlace, bind_run, reading_run, hstate]
    rfl
  | ok state =>
    -- The state is known, so the operation is at its first branch.
    show _ = settled t (if state.isPlaced then _ else _)
    simp only [placeInPlace, bind_run, reading_run, hstate, reconcileInPlace_eq]
    cases hplaced : state.isPlaced with
    | true => rfl
    | false =>
      simp only [Bool.false_eq_true, if_false]
      cases hreconcile : t.reconcile g l fallThrough with
      | error e => rfl
      | ok t' =>
        obtain ⟨⟨⟩, -, heq⟩ := Except.bind_eq_ok_iff.mp hreconcile
        cases heq
        have hmet : (t.recordEdge l fallThrough).state? l = some (state.meet fallThrough) := by
          rw [state?_recordEdge, if_pos rfl, state_ok hstate]
          rfl
        have hunplaced : (state.meet fallThrough).isPlaced = false := by
          rw [LabelState.isPlaced_meet, hplaced]
        show _ = EStateM.Result.ok _ _
        simp only [Except.map, settled, state_eq_ok hmet, recorded?, hmet, change_run]
        cases hfound : state.meet fallThrough with
        | pending => rfl
        | bound slots => rfl
        | placed recorded =>
          rw [hfound] at hunplaced
          cases hunplaced

end LabelTable

/-! ## § Regions -/

namespace RegionTracker

/-- The tracker with the number of the next region as a word of 32 bits. -/
def wrapped (t : RegionTracker) : RegionTracker := { t with next := t.next % 4294967296 }

theorem wrapped_eq {t : RegionTracker} (h : t.next < 4294967296) : t.wrapped = t := by
  rw [wrapped, Nat.mod_eq_of_lt h]

/-- The region with the next number, which has not been handed out yet unless the count has wrapped. -/
def freshRegion : InPlace NestingFault RegionTracker Region := fun t =>
  .ok ⟨t.next⟩ { t with next := t.next + 1 }.wrapped

/-- Opens a protected block. -/
def beginTryInPlace (endLabel : Label) : InPlace NestingFault RegionTracker Region := do
  reading fun t =>
    match t.innermost?.filter fun o => o.kind == .tryBlock && o.handlers != 0 with
    | some o => .error (.handlersStarted o.region)
    | none => .ok ()
  let region ← freshRegion
  change fun t =>
    { t with opened := { region, kind := .tryBlock, tryRegion := region, endLabel } :: t.opened }
  return region

/-- Opens a handler. -/
def beginHandlerInPlace (tryRegion : Region) (kind : RegionKind) :
    InPlace NestingFault RegionTracker Region := do
  let entry ← reading (·.checkHandler tryRegion kind)
  let region ← freshRegion
  change (·.updateInnermost fun o =>
    { o with
      handlers := o.handlers + 1
      awaitsCatch := false
      hasExclusive := o.hasExclusive || kind.isExclusive })
  change fun t => { t with opened := { region, kind, tryRegion, endLabel := entry.endLabel } :: t.opened }
  return region

/-- Takes the innermost region off the stack. -/
def takeInnermost (region : Region) : InPlace NestingFault RegionTracker OpenRegion := fun t =>
  match t.opened with
  | [] => .error (.notOpen region) t
  | o :: rest => .ok o { t with opened := rest }

/-- Closes a region. -/
def endRegionInPlace (region : Region) : InPlace NestingFault RegionTracker OpenRegion := do
  let _ ← reading (·.checkEnd region)
  let closed ← takeInnermost region
  change fun t =>
    if closed.kind == .filterBlock then t.updateInnermost fun o => { o with awaitsCatch := true } else t
  return closed

theorem beginTryInPlace_eq (endLabel : Label) (t : RegionTracker) :
    beginTryInPlace endLabel t =
      settled t ((t.beginTry endLabel).map fun opened => (opened.1, opened.2.wrapped)) := by
  simp only [beginTryInPlace, bind_run, reading_run, beginTry]
  cases t.innermost?.filter fun o => o.kind == .tryBlock && o.handlers != 0 <;> rfl

theorem beginHandlerInPlace_eq (tryRegion : Region) (kind : RegionKind) (t : RegionTracker) :
    beginHandlerInPlace tryRegion kind t =
      settled t ((t.beginHandler tryRegion kind).map fun opened => (opened.1, opened.2.wrapped)) := by
  simp only [beginHandlerInPlace, bind_run, reading_run, beginHandler]
  cases t.checkHandler tryRegion kind with
  | error fault => rfl
  | ok entry =>
    obtain ⟨opened, next⟩ := t
    cases opened <;> rfl

/-- As long as the count does not overflow it makes no difference that it is kept in a word. -/
theorem settled_wrapped {α : Type} {t : RegionTracker} {outcome : Except NestingFault (α × RegionTracker)}
    (h : ∀ a t', outcome = .ok (a, t') → t'.next < 4294967296) :
    settled t (outcome.map fun answer => (answer.1, answer.2.wrapped)) = settled t outcome := by
  cases outcome with
  | error fault => rfl
  | ok answer =>
    show EStateM.Result.ok answer.1 answer.2.wrapped = .ok answer.1 answer.2
    rw [wrapped_eq (h _ _ rfl)]

theorem beginTryInPlace_eq_of_lt {t : RegionTracker} (endLabel : Label) (h : t.next + 1 < 4294967296) :
    beginTryInPlace endLabel t = settled t (t.beginTry endLabel) := by
  rw [beginTryInPlace_eq]
  refine settled_wrapped fun region t' hopen => ?_
  obtain ⟨-, -, rfl⟩ := beginTry_ok hopen
  exact h

theorem beginHandlerInPlace_eq_of_lt {t : RegionTracker} (tryRegion : Region) (kind : RegionKind)
    (h : t.next + 1 < 4294967296) :
    beginHandlerInPlace tryRegion kind t = settled t (t.beginHandler tryRegion kind) := by
  rw [beginHandlerInPlace_eq]
  refine settled_wrapped fun region t' hopen => ?_
  obtain ⟨o, rest, -, -, -, -, -, rfl⟩ := beginHandler_ok hopen
  exact h

theorem endRegionInPlace_eq (region : Region) (t : RegionTracker) :
    endRegionInPlace region t = settled t (t.endRegion region) := by
  simp only [endRegionInPlace, bind_run, reading_run, endRegion]
  cases hcheck : t.checkEnd region with
  | error fault => rfl
  | ok closed =>
    obtain ⟨rest, hopened, -, -⟩ := checkEnd_ok hcheck
    simp only [takeInnermost, hopened]
    rfl

end RegionTracker

end ManagedCode
