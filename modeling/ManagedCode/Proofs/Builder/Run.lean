/-
# ManagedCode.Proofs.Builder.Run — what each step of building answers and leaves behind.

A step is a program over a draft and a sink.  Here every step is run: one equation per step says in which
order its checks are made, what each refusal leaves behind, and what the builder is after success.
Nothing later unfolds the programs.
-/
import ManagedCode.Builder.Basic
import ManagedCode.Proofs.Stack.Application

namespace ManagedCode.Builder

variable {σ α β : Type}

/-! ## § Parts of a step -/

theorem bind_run (x : Build σ α) (f : α → Build σ β) (b : Builder σ) :
    (x >>= f) b =
      match x b with
      | .ok a b' => f a b'
      | .error e b' => .error e b' := by
  show EStateM.bind x f b = _
  rw [EStateM.bind]
  cases x b <;> rfl

theorem pure_run (a : α) (b : Builder σ) : (pure a : Build σ α) b = .ok a b := rfl

theorem view_run (read : Draft → α) (d : Draft) (w : σ) : view read ⟨d, w⟩ = .ok (read d) ⟨d, w⟩ := rfl

theorem update_run (change : Draft → Draft) (d : Draft) (w : σ) :
    update change ⟨d, w⟩ = .ok () ⟨change d, w⟩ := rfl

theorem check_run (read : Draft → Except EmitError α) (d : Draft) (w : σ) :
    check read ⟨d, w⟩ =
      match read d with
      | .ok a => .ok a ⟨d, w⟩
      | .error e => .error e ⟨d, w⟩ := rfl

theorem forward_run (call : SinkCall σ) (d : Draft) (w : σ) :
    forward call ⟨d, w⟩ =
      match call w with
      | .ok () w' => .ok () ⟨d, w'⟩
      | .error e w' => .error e ⟨d, w'⟩ := rfl

/-! ## § Locals and labels -/

theorem declareLocal_run (type : TypeId) (d : Draft) (w : σ) :
    declareLocal type ⟨d, w⟩ =
      if d.locals.size < localLimit then
        .ok ⟨UInt16.ofNat d.locals.size⟩ ⟨{ d with locals := d.locals.push type }, w⟩
      else
        .error (.verification (.localDeclaration type) (.invalidIndex (localLimit - 1))) ⟨d, w⟩ := by
  simp only [declareLocal, bind_run, view_run]
  split <;> rfl

theorem defineLabel_run (d : Draft) (w : σ) :
    defineLabel ⟨d, w⟩ = .ok d.labels.fresh ⟨{ d with labels := d.labels.define.2 }, w⟩ := rfl

variable [CodeSink σ]

theorem markLabel_run (l : Label) (d : Draft) (w : σ) :
    markLabel l ⟨d, w⟩ =
      match d.checkUnqualified (.placement l) with
      | .error e => .error e ⟨d, w⟩
      | .ok () =>
        match d.labels.place d.graph l d.stack with
        | .error e => .error e ⟨d, w⟩
        | .ok (resume, labels) =>
          match CodeSink.markLabel l w with
          | .error e w' => .error e ⟨{ d with labels }, w'⟩
          | .ok () w' =>
            .ok () ⟨{ d with labels, stack := resume }.note (.labelPlaced l resume), w'⟩ := by
  simp only [markLabel, bind_run, check_run]
  cases d.checkUnqualified (.placement l) with
  | error e => rfl
  | ok =>
    simp only [check_run]
    cases d.labels.place d.graph l d.stack with
    | error e => rfl
    | ok placed =>
      obtain ⟨resume, labels⟩ := placed
      simp only [update_run, forward_run]
      cases CodeSink.markLabel l w <;> rfl

/-! ## § Instructions -/

/-- What is reported about an instruction that does not verify. -/
def reportFault (insn : Instruction) (fault : VerifierFault) (d : Draft) : Draft :=
  match JournalEntry.ofFault? insn fault with
  | some entry => d.note entry
  | none => d

omit [CodeSink σ] in
theorem verify_run (insn : Instruction) (d : Draft) (w : σ) :
    verify insn ⟨d, w⟩ =
      match (d.addResultTypes insn).stack.step (d.addResultTypes insn).graph
        (d.addResultTypes insn).context insn with
      | .ok after => .ok after ⟨d.addResultTypes insn, w⟩
      | .error fault =>
        .error (.verification (.instruction insn) fault)
          ⟨reportFault insn fault (d.addResultTypes insn), w⟩ := by
  simp only [verify, bind_run, update_run, view_run]
  cases (d.addResultTypes insn).stack.step (d.addResultTypes insn).graph
    (d.addResultTypes insn).context insn with
  | ok after => rfl
  | error fault =>
    simp only [reportFault]
    cases JournalEntry.ofFault? insn fault <;> rfl

/-- Forwards an instruction that verified and commits to it. -/
def emitVerified (insn : Instruction) (after : AbstractStack) : Build σ Unit := do
  forward (CodeSink.emit (← view (·.graph)) insn)
  update fun d => d.note (.emitted ⟨.straight insn, d.stack⟩)
  update (·.commitInstruction insn after)

theorem emitVerified_run (insn : Instruction) (after : AbstractStack) (d : Draft) (w : σ) :
    emitVerified insn after ⟨d, w⟩ =
      match CodeSink.emit d.graph insn w with
      | .error e w' => .error e ⟨d, w'⟩
      | .ok () w' =>
        .ok () ⟨(d.note (.emitted ⟨.straight insn, d.stack⟩)).commitInstruction insn after, w'⟩ := by
  simp only [emitVerified, bind_run, view_run, forward_run]
  cases CodeSink.emit d.graph insn w <;> rfl

theorem pushInstruction_run (insn : Instruction) (d : Draft) (w : σ) :
    pushInstruction insn ⟨d, w⟩ =
      if insn.isVirtualCall = false ∧ d.constrained ≠ none then
        .error (.verification (.instruction insn) .danglingPrefix) ⟨d, w⟩
      else
        match (d.addResultTypes insn).stack.step (d.addResultTypes insn).graph
          (d.addResultTypes insn).context insn with
        | .ok after => emitVerified insn after ⟨d.addResultTypes insn, w⟩
        | .error fault =>
          .error (.verification (.instruction insn) fault)
            ⟨reportFault insn fault (d.addResultTypes insn), w⟩ := by
  have hverified : (verify insn >>= fun after => emitVerified insn after : Build σ Unit) ⟨d, w⟩ =
      match (d.addResultTypes insn).stack.step (d.addResultTypes insn).graph
        (d.addResultTypes insn).context insn with
      | .ok after => emitVerified insn after ⟨d.addResultTypes insn, w⟩
      | .error fault =>
        .error (.verification (.instruction insn) fault)
          ⟨reportFault insn fault (d.addResultTypes insn), w⟩ := by
    rw [bind_run, verify_run]
    cases (d.addResultTypes insn).stack.step (d.addResultTypes insn).graph
      (d.addResultTypes insn).context insn <;> rfl
  have hpush : pushInstruction insn ⟨d, w⟩ =
      if insn.isVirtualCall = false then
        (check (·.checkUnqualified (.instruction insn)) >>= fun _ =>
          verify insn >>= fun after => emitVerified insn after : Build σ Unit) ⟨d, w⟩
      else (verify insn >>= fun after => emitVerified insn after : Build σ Unit) ⟨d, w⟩ := by
    unfold pushInstruction
    cases insn.isVirtualCall <;> rfl
  rw [hpush]
  cases hvirtual : insn.isVirtualCall with
  | true =>
    rw [if_neg (by decide), if_neg (fun h => by cases h.1), hverified]
  | false =>
    rw [if_pos rfl, bind_run, check_run, Draft.checkUnqualified]
    cases hconstrained : d.constrained with
    | none =>
      rw [if_neg (fun h => h.2 rfl)]
      exact hverified
    | some t =>
      rw [if_pos ⟨rfl, by simp⟩]

theorem pushBranch_run (branch : Branch Label) (d : Draft) (w : σ) :
    pushBranch branch ⟨d, w⟩ =
      match d.checkBranch branch with
      | .error e => .error e ⟨d, w⟩
      | .ok jump =>
        match CodeSink.emitBranch branch w with
        | .error e w' => .error e ⟨d, w'⟩
        | .ok () w' =>
          .ok () ⟨(d.note (.emitted ⟨.branch branch, d.stack⟩)).commitBranch branch jump, w'⟩ := by
  simp only [pushBranch, bind_run, check_run]
  cases d.checkBranch branch with
  | error e => rfl
  | ok jump =>
    simp only [forward_run]
    cases CodeSink.emitBranch branch w <;> rfl

/-! ## § Exception regions -/

theorem beginTry_run (d : Draft) (w : σ) :
    beginTry ⟨d, w⟩ =
      match d.checkUnqualified .tryStart with
      | .error e => .error e ⟨d, w⟩
      | .ok () =>
        match d.regions.beginTry d.labels.fresh with
        | .error fault => .error (.nesting fault) ⟨{ d with labels := d.labels.define.2 }, w⟩
        | .ok (region, regions) =>
          match CodeSink.beginRegion d.graph region .tryBlock none w with
          | .error e w' => .error e ⟨{ d with labels := d.labels.define.2, regions }, w'⟩
          | .ok () w' =>
            .ok region ⟨{ d with labels := d.labels.define.2, regions }.note
              (.tryStarted region d.stack), w'⟩ := by
  simp only [beginTry, bind_run, check_run]
  cases d.checkUnqualified .tryStart with
  | error e => rfl
  | ok =>
    simp only [defineLabel_run, checkRegions, check_run]
    cases d.regions.beginTry d.labels.fresh with
    | error fault => rfl
    | ok opened =>
      obtain ⟨region, regions⟩ := opened
      simp only [Except.mapError, update_run, view_run, forward_run]
      cases CodeSink.beginRegion d.graph region .tryBlock none w <;> rfl

/-- The part of opening a handler that comes before the handler: its checks, and the exit from the
protected block if its end is reachable. -/
def approachHandler (tryRegion : Region) (kind : RegionKind) : Build σ Unit := do
  check (·.checkUnqualified (.handlerStart kind))
  let entry ← checkRegions (·.checkHandler tryRegion kind)
  if entry.endsBlock && (← view (·.stack.isReachable)) then pushBranch (.leave entry.endLabel)

/-- The part of opening a handler that starts with the handler. -/
def openHandler (tryRegion : Region) (kind : RegionKind) : Build σ Region := do
  let (region, regions) ← checkRegions (·.beginHandler tryRegion kind)
  update fun d => { d with regions }
  forward (CodeSink.beginRegion (← view (·.graph)) region kind (some tryRegion))
  update fun d => d.withStack (d.handlerStack kind)
  update fun d => d.note (.handlerStarted kind region d.stack)
  return region

theorem beginHandler_run (tryRegion : Region) (kind : RegionKind) (b : Builder σ) :
    beginHandler tryRegion kind b =
      match approachHandler tryRegion kind b with
      | .ok () b' => openHandler tryRegion kind b'
      | .error e b' => .error e b' := by
  have hparts : (beginHandler tryRegion kind : Build σ Region) =
      (check (·.checkUnqualified (.handlerStart kind)) >>= fun _ =>
        checkRegions (·.checkHandler tryRegion kind) >>= fun entry =>
        view (·.stack.isReachable) >>= fun reachable =>
        if entry.endsBlock && reachable then
          pushBranch (.leave entry.endLabel) >>= fun _ => openHandler tryRegion kind
        else openHandler tryRegion kind) := rfl
  obtain ⟨d, w⟩ := b
  simp only [hparts, approachHandler, bind_run, check_run]
  cases d.checkUnqualified (.handlerStart kind) with
  | error e => rfl
  | ok =>
    simp only [checkRegions, check_run]
    cases d.regions.checkHandler tryRegion kind with
    | error fault => rfl
    | ok entry =>
      simp only [Except.mapError, view_run]
      split
      · simp only [bind_run]
        cases pushBranch (.leave entry.endLabel) ⟨d, w⟩ <;> rfl
      · rfl

theorem approachHandler_run (tryRegion : Region) (kind : RegionKind) (d : Draft) (w : σ) :
    approachHandler tryRegion kind ⟨d, w⟩ =
      match d.checkUnqualified (.handlerStart kind) with
      | .error e => .error e ⟨d, w⟩
      | .ok () =>
        match d.regions.checkHandler tryRegion kind with
        | .error fault => .error (.nesting fault) ⟨d, w⟩
        | .ok entry =>
          if entry.endsBlock = true ∧ d.stack.isReachable = true then
            pushBranch (.leave entry.endLabel) ⟨d, w⟩
          else .ok () ⟨d, w⟩ := by
  simp only [approachHandler, bind_run, check_run]
  cases d.checkUnqualified (.handlerStart kind) with
  | error e => rfl
  | ok =>
    simp only [checkRegions, check_run]
    cases d.regions.checkHandler tryRegion kind with
    | error fault => rfl
    | ok entry =>
      simp only [Except.mapError, view_run, Bool.and_eq_true]
      split <;> rfl

theorem openHandler_run (tryRegion : Region) (kind : RegionKind) (d : Draft) (w : σ) :
    openHandler tryRegion kind ⟨d, w⟩ =
      match d.regions.beginHandler tryRegion kind with
      | .error fault => .error (.nesting fault) ⟨d, w⟩
      | .ok (region, regions) =>
        match CodeSink.beginRegion d.graph region kind (some tryRegion) w with
        | .error e w' => .error e ⟨{ d with regions }, w'⟩
        | .ok () w' =>
          .ok region ⟨({ d with regions }.withStack (d.handlerStack kind)).note
            (.handlerStarted kind region (d.handlerStack kind)), w'⟩ := by
  simp only [openHandler, checkRegions, bind_run, check_run]
  cases d.regions.beginHandler tryRegion kind with
  | error fault => rfl
  | ok opened =>
    obtain ⟨region, regions⟩ := opened
    simp only [Except.mapError, update_run, view_run, forward_run]
    cases CodeSink.beginRegion d.graph region kind (some tryRegion) w with
    | error e w' => rfl
    | ok _ w' => cases kind <;> rfl

/-- The part of closing a region that comes before its end: its checks, and the exit from a handler whose
end is reachable. -/
def approachEnd (region : Region) : Build σ OpenRegion := do
  check (·.checkUnqualified (.regionEnd region))
  let o ← checkRegions (·.checkEnd region)
  if o.kind.isHandler && (← view (·.stack.isReachable)) then pushBranch o.exit
  return o

/-- The part of closing a region that starts with its end. -/
def closeRegion (region : Region) (o : OpenRegion) : Build σ Unit := do
  let (_, regions) ← checkRegions (·.endRegion region)
  update fun d => { d with regions }
  forward (CodeSink.endRegion region)
  update (·.note (.regionEnded o.kind region))
  if o.kind == .tryBlock then markLabel o.endLabel

theorem endRegion_run (region : Region) (b : Builder σ) :
    endRegion region b =
      match approachEnd region b with
      | .ok o b' => closeRegion region o b'
      | .error e b' => .error e b' := by
  have hparts : (endRegion region : Build σ Unit) =
      (check (·.checkUnqualified (.regionEnd region)) >>= fun _ =>
        checkRegions (·.checkEnd region) >>= fun o =>
        view (·.stack.isReachable) >>= fun reachable =>
        if o.kind.isHandler && reachable then pushBranch o.exit >>= fun _ => closeRegion region o
        else closeRegion region o) := rfl
  obtain ⟨d, w⟩ := b
  simp only [hparts, approachEnd, bind_run, check_run]
  cases d.checkUnqualified (.regionEnd region) with
  | error e => rfl
  | ok =>
    simp only [checkRegions, check_run]
    cases d.regions.checkEnd region with
    | error fault => rfl
    | ok o =>
      simp only [Except.mapError, view_run]
      split
      · simp only [bind_run]
        cases pushBranch o.exit ⟨d, w⟩ <;> rfl
      · rfl

theorem approachEnd_run (region : Region) (d : Draft) (w : σ) :
    approachEnd region ⟨d, w⟩ =
      match d.checkUnqualified (.regionEnd region) with
      | .error e => .error e ⟨d, w⟩
      | .ok () =>
        match d.regions.checkEnd region with
        | .error fault => .error (.nesting fault) ⟨d, w⟩
        | .ok o =>
          if o.kind.isHandler = true ∧ d.stack.isReachable = true then
            match pushBranch o.exit ⟨d, w⟩ with
            | .ok () b => .ok o b
            | .error e b => .error e b
          else .ok o ⟨d, w⟩ := by
  simp only [approachEnd, bind_run, check_run]
  cases d.checkUnqualified (.regionEnd region) with
  | error e => rfl
  | ok =>
    simp only [checkRegions, check_run]
    cases d.regions.checkEnd region with
    | error fault => rfl
    | ok o =>
      simp only [Except.mapError, view_run, Bool.and_eq_true]
      split
      · simp only [bind_run]
        cases pushBranch o.exit ⟨d, w⟩ <;> rfl
      · rfl

theorem closeRegion_run (region : Region) (o : OpenRegion) (d : Draft) (w : σ) :
    closeRegion region o ⟨d, w⟩ =
      match d.regions.endRegion region with
      | .error fault => .error (.nesting fault) ⟨d, w⟩
      | .ok (_, regions) =>
        match CodeSink.endRegion region w with
        | .error e w' => .error e ⟨{ d with regions }, w'⟩
        | .ok () w' =>
          if o.kind = .tryBlock then
            markLabel o.endLabel ⟨{ d with regions }.note (.regionEnded o.kind region), w'⟩
          else .ok () ⟨{ d with regions }.note (.regionEnded o.kind region), w'⟩ := by
  simp only [closeRegion, checkRegions, bind_run, check_run]
  cases d.regions.endRegion region with
  | error fault => rfl
  | ok closed =>
    obtain ⟨_, regions⟩ := closed
    simp only [Except.mapError, update_run, forward_run, beq_iff_eq]
    cases CodeSink.endRegion region w with
    | error e w' => rfl
    | ok _ w' =>
      simp only [update_run]
      by_cases hkind : o.kind = .tryBlock
      · rw [if_pos hkind, if_pos hkind]
      · rw [if_neg hkind, if_neg hkind, pure_run]

/-! ## § The end -/

/-- What is missing is looked for in this order: the end of a region, the call after a qualifier, the end of
the code and the place of a label. -/
theorem checkFinished_eq (d : Draft) :
    checkFinished d =
      match d.regions.innermost? with
      | some o => .error (.nesting (.stillOpen o.region o.kind))
      | none =>
        match d.constrained with
        | some t => .error (.verification (.instruction (.constrained t)) .danglingPrefix)
        | none =>
          if d.stack.isReachable || !d.labels.unplaced.isEmpty then
            .error (.notFinished d.stack.isReachable d.labels.unplaced)
          else .ok () := by
  unfold checkFinished
  cases d.regions.innermost? with
  | some o => rfl
  | none => cases d.constrained <;> rfl

omit [CodeSink σ] in
/-- **`finish_ok`** — in a finished body no region is open, the end cannot be reached, and every label that
something jumped to has a place. -/
theorem finish_ok {b : Builder σ} {code : FinishedCode σ} (h : b.finish = .ok code) :
    b.draft.regions.opened = [] ∧ b.draft.stack = .unreachable ∧ b.draft.labels.unplaced = [] ∧
      code = { sink := b.sink
               records := b.draft.records
               maxStack := b.draft.maxStack
               locals := b.draft.locals } := by
  obtain ⟨⟨⟩, hcheck, heq⟩ := Except.bind_eq_ok_iff.mp h
  cases heq
  rw [checkFinished_eq] at hcheck
  split at hcheck
  · cases hcheck
  · rename_i hopen
    split at hcheck
    · cases hcheck
    · split at hcheck
      · cases hcheck
      · rename_i hend
        rw [Bool.or_eq_true, not_or] at hend
        refine ⟨List.head?_eq_none_iff.mp hopen, ?_, by simpa using hend.2, rfl⟩
        cases hstack : b.draft.stack with
        | unreachable => rfl
        | reachable slots =>
          rw [hstack] at hend
          exact absurd rfl hend.1

omit [CodeSink σ] in
/-- In a finished body every qualifier has its call. -/
theorem unqualified_of_finish {b : Builder σ} {code : FinishedCode σ} (h : b.finish = .ok code) :
    b.draft.constrained = none := by
  obtain ⟨⟨⟩, hcheck, -⟩ := Except.bind_eq_ok_iff.mp h
  rw [checkFinished_eq] at hcheck
  split at hcheck
  · cases hcheck
  · split at hcheck
    · cases hcheck
    · assumption

end ManagedCode.Builder
