/-
# ManagedCode.Proofs.Builder.Depth — the reported maximum is the depth of the deepest stack there has been.

The maximum is raised where code is emitted and where a handler starts, and nowhere else.  A label that is
placed may well bring back a deeper stack than the one before it, and the maximum is right nevertheless:
what is recorded for a label was once delivered from a current stack at least as deep, since no branch
pushes.  `Draft.Covered` says that of all stacks that a draft remembers, and no step breaks it.

An operation may come to rest more than once: where it emits an exit and goes on, the stack after the exit
counts as well (`Operation.rests`).
-/
import ManagedCode.Proofs.Builder.Expansion

namespace ManagedCode

/-! ## § Depths -/

namespace AbstractStack

/-- The number of slots; code that cannot be reached has none. -/
def depth (s : AbstractStack) : Nat := s.depth?.getD 0

@[simp] theorem depth_unreachable : unreachable.depth = 0 := rfl

@[simp] theorem depth_reachable (slots : List TypeTag) : (reachable slots).depth = slots.length := rfl

end AbstractStack

/-- Branches take operands and leave nothing. -/
theorem Branch.pushes_effect {Target : Type} (g : TypeGraph) (ctx : MethodContext) (b : Branch Target) :
    (b.effect g ctx).pushes = [] := by
  cases b with
  | ret =>
    rw [effect]
    cases ctx.returnType <;> rfl
  | _ => rfl

namespace AbstractStack

variable {g : TypeGraph} {ctx : MethodContext}

/-- **`jump_depth`** — no branch makes the stack deeper, at its targets or behind it. -/
theorem jump_depth {Target : Type} {b : Branch Target} {s : AbstractStack} {j : Jump}
    (h : s.jump g ctx b = .ok j) : j.delivered.depth ≤ s.depth ∧ j.next.depth ≤ s.depth := by
  cases s with
  | unreachable =>
    cases h
    exact ⟨Nat.le_refl _, Nat.le_refl _⟩
  | reachable slots =>
    obtain ⟨out, hout, rfl⟩ := jump_ok_iff.mp h
    obtain ⟨-, -, pair, pushed, -, hpushed, rfl⟩ := StackEffect.apply_ok_iff.mp hout
    rw [Branch.pushes_effect, List.forall₂_nil_left_iff] at hpushed
    subst hpushed
    rw [Jump.after]
    constructor
    · dsimp only
      split
      · exact Nat.zero_le _
      · simp
    · dsimp only
      split
      · exact Nat.zero_le _
      · simp

/-- What replaces the top of the stack keeps its depth. -/
theorem step_replace_depth {insn : Instruction} {e : Expect} {tag : TypeTag} {s after : AbstractStack}
    (heffect : insn.effect g ctx = .ok (.replace [e] tag)) (h : s.step g ctx insn = .ok after) :
    after.depth = s.depth := by
  cases s with
  | unreachable =>
    cases h
    rfl
  | reachable slots =>
    obtain ⟨top, rest, rfl, -, rfl⟩ := (step_replace_iff heffect).mp h
    rfl

end AbstractStack

/-- A reachable stack that is looked up is a record. -/
theorem LabelTable.records_of_recorded? {t : LabelTable} {l : Label} {slots : List TypeTag}
    (h : t.recorded? l = some (.reachable slots)) : t.Records l slots := by
  obtain ⟨state, hstate, hrecorded⟩ := Option.bind_eq_some_iff.mp h
  cases state with
  | pending => cases hrecorded
  | bound recorded =>
    cases hrecorded
    exact ⟨_, hstate, rfl⟩
  | placed recorded =>
    cases hrecorded
    exact ⟨_, hstate, rfl⟩

/-! ## § What a draft remembers is covered -/

/-- **`Covered`** — no stack of the draft is deeper than the maximum: the current one, those recorded for
labels, and those before its instructions. -/
structure Draft.Covered (d : Draft) : Prop where
  current : d.stack.depth ≤ d.maxStack
  recorded : ∀ l slots, d.labels.Records l slots → slots.length ≤ d.maxStack
  before : ∀ r ∈ d.records, r.stackBefore.depth ≤ d.maxStack

namespace Draft.Covered

variable {d : Draft}

theorem start (g : TypeGraph) (system : SystemTypes) (method : MethodId) :
    (Draft.start g system method).Covered := by
  obtain ⟨g', receiver, hstart, -⟩ := Draft.start_eq g system method
  rw [hstart]
  refine ⟨Nat.le_refl _, ?_, by simp⟩
  rintro l slots ⟨state, hstate, -⟩
  simp [LabelTable.state?] at hstate

theorem define (h : d.Covered) : { d with labels := d.labels.define.2 }.Covered :=
  ⟨h.current, fun l slots hrecords => h.recorded l slots (LabelTable.records_define hrecords), h.before⟩

/-- Emitted code leaves a record with the current stack, and continues with another one. -/
theorem emit (h : d.Covered) (item : CodeItem) (after : AbstractStack) :
    { d with
      records := d.records.push ⟨item, d.stack⟩
      stack := after
      maxStack := max d.maxStack after.depth }.Covered := by
  refine ⟨Nat.le_max_right _ _, fun l slots hrecords => ?_, fun r hr => ?_⟩
  · exact (h.recorded l slots hrecords).trans (Nat.le_max_left _ _)
  · refine Nat.le_trans ?_ (Nat.le_max_left _ _)
    rcases Array.mem_push.mp hr with hr | rfl
    · exact h.before r hr
    · exact h.current

/-- An edge records what is delivered, which is no deeper than the current stack. -/
theorem edges (h : d.Covered) {delivered : AbstractStack} (hdepth : delivered.depth ≤ d.stack.depth)
    (targets : List Label) : { d with labels := Draft.edgesInto delivered targets d.labels }.Covered := by
  refine ⟨h.current, fun l slots hrecords => ?_, h.before⟩
  rcases LabelTable.records_recordEdges hrecords with hold | rfl
  · exact h.recorded l slots hold
  · exact hdepth.trans h.current

/-- A label resumes with what is recorded for it, or with the current stack. -/
theorem place (h : d.Covered) {g : TypeGraph} {l : Label} {resume : AbstractStack} {labels : LabelTable}
    (hplace : d.labels.place g l d.stack = .ok (resume, labels)) :
    resume.depth ≤ d.maxStack ∧ ∀ l' slots, labels.Records l' slots → slots.length ≤ d.maxStack := by
  have hresume : resume.depth ≤ d.maxStack := by
    rcases (LabelTable.place_ok hplace).1 with ⟨-, rfl⟩ | ⟨slots, hbound, rfl, -⟩
    · exact h.current
    · exact h.recorded l slots ⟨_, hbound, rfl⟩
  refine ⟨hresume, fun l' slots hrecords => ?_⟩
  rcases LabelTable.records_place hplace hrecords with ⟨-, rfl⟩ | ⟨-, hold⟩
  · exact hresume
  · exact h.recorded l' slots hold

/-- **`Covered.step`** — no step leaves anything deeper than the maximum. -/
theorem step {σ : Type} [CodeSink σ] {op : Operation} {b b' : Builder σ} (hstep : Step op b b')
    (h : b.draft.Covered) : b'.draft.Covered := by
  cases hstep with
  | declareLocal => exact ⟨h.current, h.recorded, h.before⟩
  | defineLabel => exact h.define
  | addResultTypes =>
    rw [Draft.addResultTypes_eq]
    exact ⟨h.current, h.recorded, h.before⟩
  | report => exact ⟨h.current, h.recorded, h.before⟩
  | @instruction d w w' insn after =>
    rw [Draft.addResultTypes_eq]
    have hemit := h.emit (.straight insn) after
    exact ⟨hemit.current, hemit.recorded, hemit.before⟩
  | instructionRefused => exact h
  | @branch d w w' b j hb hj =>
    obtain ⟨-, -, hjump, -⟩ := Draft.checkBranch_ok hj
    obtain ⟨late, hcommit, -, -⟩ := Draft.commitBranch_eq b j (d.note (.emitted ⟨.branch b, d.stack⟩))
    rw [hcommit]
    have hemit := (h.edges (AbstractStack.jump_depth hjump).1 b.targets).emit (.branch b) j.next
    exact ⟨hemit.current, hemit.recorded, hemit.before⟩
  | branchRefused => exact h
  | place hop hfree hplace =>
    obtain ⟨hresume, hlabels⟩ := h.place hplace
    exact ⟨hresume, hlabels, h.before⟩
  | placeRefused hop hplace =>
    obtain ⟨-, hlabels⟩ := h.place hplace
    exact ⟨h.current, hlabels, h.before⟩
  | beginTry => exact ⟨h.current, h.define.recorded, h.before⟩
  | beginTryRefused => exact ⟨h.current, h.define.recorded, h.before⟩
  | beginHandler =>
    refine ⟨Nat.le_max_right _ _, fun l slots hrecords => ?_, fun r hr => ?_⟩
    · exact (h.recorded l slots hrecords).trans (Nat.le_max_left _ _)
    · exact (h.before r hr).trans (Nat.le_max_left _ _)
  | beginHandlerRefused => exact ⟨h.current, h.recorded, h.before⟩
  | endHandler => exact ⟨h.current, h.recorded, h.before⟩
  | endTry hfree hblock hend hsink hplace =>
    obtain ⟨hresume, hlabels⟩ := h.place hplace
    exact ⟨hresume, hlabels, h.before⟩
  | endTryUnplaced => exact ⟨h.current, h.recorded, h.before⟩
  | endTryRefused hblock hend hsink hplace =>
    obtain ⟨-, hlabels⟩ := h.place hplace
    exact ⟨h.current, hlabels, h.before⟩
  | endRefused => exact ⟨h.current, h.recorded, h.before⟩

/-- What changes builders by steps leaves nothing deeper than the maximum. -/
theorem steps {σ : Type} [CodeSink σ] {op : Operation} {b b' : Builder σ} (hsteps : Steps op b b')
    (h : b.draft.Covered) : b'.draft.Covered := by
  induction hsteps with
  | refl => exact h
  | tail _ hlast ih => exact ih.step hlast

end Draft.Covered

/-! ## § How far the maximum rises -/

theorem Build.reached_bind {σ α β : Type} (x : Build σ α) (f : α → Build σ β) (b : Builder σ) :
    (x >>= f).reached b =
      match x b with
      | .ok a b' => (f a).reached b'
      | .error _ b' => b' := by
  rw [Build.reached, Builder.bind_run]
  cases x b <;> rfl

/-- **`RisesTo`** — the maximum is not lowered on the way to another draft, and raised no further than to the
stack there. -/
structure Draft.RisesTo (d d' : Draft) : Prop where
  kept : d.maxStack ≤ d'.maxStack
  bounded : d'.maxStack ≤ max d.maxStack d'.stack.depth

namespace Draft.RisesTo

variable {d d' : Draft}

theorem of_same (h : d'.maxStack = d.maxStack) : d.RisesTo d' :=
  ⟨Nat.le_of_eq h.symm, h ▸ Nat.le_max_left _ _⟩

theorem of_peak (h : d'.maxStack = max d.maxStack d'.stack.depth) : d.RisesTo d' :=
  ⟨h ▸ Nat.le_max_left _ _, Nat.le_of_eq h⟩

/-- Where the stack is covered the maximum has risen to exactly that. -/
theorem peak (h : d.RisesTo d') (hcovered : d'.Covered) : d'.maxStack = max d.maxStack d'.stack.depth :=
  Nat.le_antisymm h.bounded (Nat.max_le.mpr ⟨h.kept, hcovered.current⟩)

/-- What lies on the way does not matter if it is no deeper than the start or the end. -/
theorem trans {d₁ : Draft} (h : d.RisesTo d₁) (h' : d₁.RisesTo d')
    (hdepth : d₁.stack.depth ≤ max d.maxStack d'.stack.depth) : d.RisesTo d' := by
  refine ⟨h.kept.trans h'.kept, h'.bounded.trans (Nat.max_le.mpr ⟨?_, Nat.le_max_right _ _⟩)⟩
  exact h.bounded.trans (Nat.max_le.mpr ⟨Nat.le_max_left _ _, hdepth⟩)

end Draft.RisesTo

theorem Draft.maxStack_addResultTypes (insn : Instruction) (d : Draft) :
    (d.addResultTypes insn).maxStack = d.maxStack := by
  rw [Draft.addResultTypes_eq]

theorem Draft.stack_addResultTypes (insn : Instruction) (d : Draft) :
    (d.addResultTypes insn).stack = d.stack := by
  rw [Draft.addResultTypes_eq]

namespace Builder

variable {σ : Type} [CodeSink σ]

/-- An instruction that is refused, be it by the sink, leaves stack and maximum as they were; one that is
emitted raises the maximum to the stack that it leaves. -/
theorem pushInstruction_depth (insn : Instruction) (b : Builder σ) :
    match pushInstruction insn b with
    | .error _ b' => b'.draft.stack = b.draft.stack ∧ b'.draft.maxStack = b.draft.maxStack
    | .ok () b' =>
      (∃ g ctx, b.draft.stack.step g ctx insn = .ok b'.draft.stack) ∧
        b'.draft.maxStack = max b.draft.maxStack b'.draft.stack.depth := by
  obtain ⟨d, w⟩ := b
  rw [pushInstruction_run]
  by_cases hqualified : insn.isVirtualCall = false ∧ d.constrained ≠ none
  · rw [if_pos hqualified]
    exact ⟨rfl, rfl⟩
  · rw [if_neg hqualified, Draft.stack_addResultTypes]
    cases hstep : d.stack.step (d.addResultTypes insn).graph (d.addResultTypes insn).context insn with
    | error fault =>
      obtain ⟨journal, hreport⟩ := reportFault_eq insn fault (d.addResultTypes insn)
      simp only [hreport]
      exact ⟨Draft.stack_addResultTypes insn d, Draft.maxStack_addResultTypes insn d⟩
    | ok after =>
      simp only [emitVerified_run]
      cases CodeSink.emit (d.addResultTypes insn).graph insn w with
      | error e w' => exact ⟨Draft.stack_addResultTypes insn d, Draft.maxStack_addResultTypes insn d⟩
      | ok _ w' =>
        refine ⟨⟨_, _, hstep⟩, ?_⟩
        show max (d.addResultTypes insn).maxStack _ = _
        rw [Draft.maxStack_addResultTypes]
        rfl

theorem pushInstruction_risesTo (insn : Instruction) (b : Builder σ) :
    b.draft.RisesTo ((pushInstruction insn).reached b).draft := by
  have hdepth := pushInstruction_depth insn b
  rw [Build.reached]
  cases hpush : pushInstruction insn b with
  | error e b' =>
    rw [hpush] at hdepth
    exact .of_same hdepth.2
  | ok _ b' =>
    rw [hpush] at hdepth
    exact .of_peak hdepth.2

theorem pushBranch_risesTo (branch : Branch Label) (b : Builder σ) :
    b.draft.RisesTo ((pushBranch branch).reached b).draft := by
  obtain ⟨d, w⟩ := b
  rw [Build.reached, pushBranch_run]
  cases d.checkBranch branch with
  | error e => exact .of_same rfl
  | ok j =>
    cases CodeSink.emitBranch branch w with
    | error e w' => exact .of_same rfl
    | ok _ w' =>
      obtain ⟨late, hcommit, -, -⟩ := Draft.commitBranch_eq branch j (d.note (.emitted ⟨.branch branch, d.stack⟩))
      simp only [hcommit]
      exact .of_peak rfl

/-- A label brings back a stack without a word to the maximum. -/
theorem maxStack_markLabel (l : Label) (b : Builder σ) :
    ((markLabel l).reached b).draft.maxStack = b.draft.maxStack := by
  obtain ⟨d, w⟩ := b
  rw [Build.reached, markLabel_run]
  cases d.checkUnqualified (.placement l) with
  | error e => rfl
  | ok =>
    cases d.labels.place d.graph l d.stack with
    | error e => rfl
    | ok placed => cases CodeSink.markLabel l w <;> rfl

omit [CodeSink σ] in
theorem maxStack_declareLocal (type : TypeId) (b : Builder σ) :
    ((declareLocal type).reached b).draft.maxStack = b.draft.maxStack := by
  obtain ⟨d, w⟩ := b
  rw [Build.reached, declareLocal_run]
  by_cases hlimit : d.locals.size < localLimit
  · rw [if_pos hlimit]
  · rw [if_neg hlimit]

theorem maxStack_beginTry (b : Builder σ) : (beginTry.reached b).draft.maxStack = b.draft.maxStack := by
  obtain ⟨d, w⟩ := b
  rw [Build.reached, beginTry_run]
  cases d.checkUnqualified .tryStart with
  | error e => rfl
  | ok =>
    cases d.regions.beginTry d.labels.fresh with
    | error fault => rfl
    | ok opened =>
      obtain ⟨region, regions⟩ := opened
      dsimp only
      cases CodeSink.beginRegion d.graph region .tryBlock none w <;> rfl

theorem approachHandler_risesTo (tryRegion : Region) (kind : RegionKind) (b : Builder σ) :
    b.draft.RisesTo ((approachHandler tryRegion kind).reached b).draft := by
  obtain ⟨d, w⟩ := b
  rw [Build.reached, approachHandler_run]
  cases d.checkUnqualified (.handlerStart kind) with
  | error e => exact .of_same rfl
  | ok =>
    cases d.regions.checkHandler tryRegion kind with
    | error fault => exact .of_same rfl
    | ok entry =>
      dsimp only
      by_cases hexit : entry.endsBlock = true ∧ d.stack.isReachable = true
      · rw [if_pos hexit]
        exact pushBranch_risesTo (.leave entry.endLabel) ⟨d, w⟩
      · rw [if_neg hexit]
        exact .of_same rfl

theorem openHandler_risesTo (tryRegion : Region) (kind : RegionKind) (b : Builder σ) :
    b.draft.RisesTo ((openHandler tryRegion kind).reached b).draft := by
  obtain ⟨d, w⟩ := b
  rw [Build.reached, openHandler_run]
  cases d.regions.beginHandler tryRegion kind with
  | error fault => exact .of_same rfl
  | ok opened =>
    obtain ⟨region, regions⟩ := opened
    dsimp only
    cases CodeSink.beginRegion d.graph region kind (some tryRegion) w with
    | error e w' => exact .of_same rfl
    | ok _ w' => exact .of_peak rfl

theorem approachEnd_risesTo (region : Region) (b : Builder σ) :
    b.draft.RisesTo ((approachEnd region).reached b).draft := by
  obtain ⟨d, w⟩ := b
  rw [Build.reached, approachEnd_run]
  cases d.checkUnqualified (.regionEnd region) with
  | error e => exact .of_same rfl
  | ok =>
    cases d.regions.checkEnd region with
    | error fault => exact .of_same rfl
    | ok o =>
      dsimp only
      by_cases hexit : o.kind.isHandler = true ∧ d.stack.isReachable = true
      · have hrises := pushBranch_risesTo o.exit ⟨d, w⟩
        rw [Build.reached] at hrises
        rw [if_pos hexit]
        cases hpush : pushBranch o.exit ⟨d, w⟩ with
        | error e b' => simpa only [hpush] using hrises
        | ok _ b' => simpa only [hpush] using hrises
      · rw [if_neg hexit]
        exact .of_same rfl

theorem maxStack_closeRegion (region : Region) (o : OpenRegion) (b : Builder σ) :
    ((closeRegion region o).reached b).draft.maxStack = b.draft.maxStack := by
  obtain ⟨d, w⟩ := b
  rw [Build.reached, closeRegion_run]
  cases d.regions.endRegion region with
  | error fault => rfl
  | ok closed =>
    obtain ⟨o', regions⟩ := closed
    dsimp only
    cases CodeSink.endRegion region w with
    | error e w' => rfl
    | ok _ w' =>
      dsimp only
      by_cases hblock : o.kind = .tryBlock
      · rw [if_pos hblock]
        exact maxStack_markLabel o.endLabel ⟨_, w'⟩
      · rw [if_neg hblock]
        rfl

/-- Two instructions of which the second leaves the stack as deep as the first left it, or the first left it as
it was. -/
theorem pushTwo_risesTo {first second : Instruction} {b : Builder σ} (hcovered : b.draft.Covered)
    (hdepth : ∀ g ctx g' ctx' after after', b.draft.stack.step g ctx first = .ok after →
      after.step g' ctx' second = .ok after' → after.depth ≤ max b.draft.stack.depth after'.depth) :
    b.draft.RisesTo (((Expansion.two first second).emit).reached b).draft := by
  have hfirst := pushInstruction_depth first b
  have hrises := pushInstruction_risesTo first b
  rw [Build.reached] at hrises
  rw [Expansion.emit, Build.reached_bind]
  cases hpush : pushInstruction first b with
  | error e b₁ => simpa only [hpush] using hrises
  | ok _ b₁ =>
    rw [hpush] at hfirst hrises
    obtain ⟨⟨g, ctx, hstep⟩, -⟩ := hfirst
    refine hrises.trans (pushInstruction_risesTo second b₁) ?_
    have hsecond := pushInstruction_depth second b₁
    dsimp only
    rw [Build.reached]
    cases hpush' : pushInstruction second b₁ with
    | error e b₂ =>
      rw [hpush'] at hsecond
      rw [hsecond.1]
      exact Nat.le_max_right _ _
    | ok _ b₂ =>
      rw [hpush'] at hsecond
      obtain ⟨⟨g', ctx', hstep'⟩, -⟩ := hsecond
      have hmiddle := hdepth g ctx g' ctx' _ _ hstep hstep'
      have hcurrent := hcovered.current
      show b₁.draft.stack.depth ≤ max b.draft.maxStack b₂.draft.stack.depth
      omega

end Builder

/-- What a typed step emits raises the maximum to the stack that it ends with. -/
theorem TypedStep.risesTo {σ : Type} [CodeSink σ] (step : TypedStep) {b : Builder σ}
    (hcovered : b.draft.Covered) : b.draft.RisesTo (step.build.reached b).draft := by
  rw [Build.reached, build_run]
  cases hexpansion : step.expansion b.draft with
  | error e => exact .of_same rfl
  | ok x =>
    show b.draft.RisesTo (x.emit.reached b).draft
    cases x with
    | nothing => exact .of_same rfl
    | one insn => exact Builder.pushInstruction_risesTo insn b
    | jump branch => exact Builder.pushBranch_risesTo branch b
    | two first second =>
      refine Builder.pushTwo_risesTo hcovered fun g ctx g' ctx' after after' hfirst hsecond => ?_
      rcases expansion_two hexpansion with ⟨value, -, -, rfl, rfl⟩ | ⟨t, -, rfl, rfl⟩ | ⟨m, r, -, -, rfl, rfl⟩
      · rw [AbstractStack.step_replace_depth rfl hsecond]
        exact Nat.le_max_right _ _
      · rw [AbstractStack.step_replace_depth rfl hsecond]
        exact Nat.le_max_right _ _
      · -- The qualifier leaves the stack as it is.
        have hsame : b.draft.stack.step g ctx (.constrained r) = .ok b.draft.stack := by
          cases b.draft.stack <;> rfl
        cases hsame.symm.trans hfirst
        exact Nat.le_max_left _ _

/-! ## § Operations and where they rest -/

namespace Operation

variable {σ : Type} [CodeSink σ]

omit [CodeSink σ] in
/-- What is reached before the answer is put into words. -/
theorem reached_bind_pure {α : Type} (x : Build σ α) (f : α → Answer) (b : Builder σ) :
    (x >>= fun a => pure (f a)).reached b = x.reached b := by
  rw [Build.reached_bind, Build.reached]
  cases x b <;> rfl

/-- The operation emits no exit on its way. -/
def restsOnce : Operation → Bool
  | .beginHandler _ _ | .endRegion _ => false
  | _ => true

/-- **`risesTo`** — an operation that rests once raises the maximum to the stack that it ends with. -/
theorem risesTo {op : Operation} (hop : op.restsOnce = true) {b : Builder σ} (hcovered : b.draft.Covered) :
    b.draft.RisesTo (op.answer.reached b).draft := by
  have htyped (step : TypedStep) (f : Unit → Answer) :
      b.draft.RisesTo ((step.build >>= fun a => pure (f a)).reached b).draft := by
    rw [reached_bind_pure]
    exact step.risesTo hcovered
  cases op with
  | beginHandler r kind => cases hop
  | endRegion r => cases hop
  | declareLocal t =>
    rw [answer, reached_bind_pure]
    exact .of_same (Builder.maxStack_declareLocal t b)
  | defineLabel => exact .of_same rfl
  | markLabel l =>
    rw [answer, reached_bind_pure]
    exact .of_same (Builder.maxStack_markLabel l b)
  | beginTry =>
    rw [answer, reached_bind_pure]
    exact .of_same (Builder.maxStack_beginTry b)
  | instruction insn =>
    rw [answer, reached_bind_pure]
    exact Builder.pushInstruction_risesTo insn b
  | branch branch =>
    rw [answer, reached_bind_pure]
    exact Builder.pushBranch_risesTo branch b
  | constLong value => exact htyped (.constLong value) _
  | signed choice => exact htyped (.signed choice) _
  | branchIf relation target => exact htyped (.branchIf relation target) _
  | convert target checked => exact htyped (.convert target checked) _
  | loadElement t => exact htyped (.loadElement t) _
  | loadIndirect t => exact htyped (.loadIndirect t) _
  | storeIndirect t => exact htyped (.storeIndirect t) _
  | accessField access f => exact htyped (.accessField access f) _
  | callVirtual m receiver => exact htyped (.callVirtual m receiver) _

/-- **`rests`** — the builders in which the operation comes to rest, the last one first: at its end and, where it
may emit an exit on its way, behind the exit. -/
def rests (op : Operation) (b : Builder σ) : List (Builder σ) :=
  op.answer.reached b ::
    match op with
    | .beginHandler r kind => [(Builder.approachHandler r kind).reached b]
    | .endRegion r => [(Builder.approachEnd r).reached b]
    | _ => []

/-- What an operation that emits an exit does before and after it. -/
theorem exists_rest {op : Operation} (hop : op.restsOnce = false) (b : Builder σ) :
    ∃ middle : Builder σ, op.rests b = [op.answer.reached b, middle] ∧ Steps op b middle ∧
      b.draft.RisesTo middle.draft ∧ middle.draft.RisesTo (op.answer.reached b).draft := by
  cases op with
  | beginHandler r kind =>
    refine ⟨(Builder.approachHandler r kind).reached b, rfl, Builder.approachHandler_isSteps b,
      Builder.approachHandler_risesTo r kind b, ?_⟩
    rw [answer, reached_bind_pure, Build.reached, Build.reached, Builder.beginHandler_run]
    cases Builder.approachHandler r kind b with
    | error e b₁ => exact .of_same rfl
    | ok _ b₁ => exact Builder.openHandler_risesTo r kind b₁
  | endRegion r =>
    refine ⟨(Builder.approachEnd r).reached b, rfl, Builder.approachEnd_isSteps b,
      Builder.approachEnd_risesTo r b, ?_⟩
    rw [answer, reached_bind_pure, Build.reached, Build.reached, Builder.endRegion_run]
    cases Builder.approachEnd r b with
    | error e b₁ => exact .of_same rfl
    | ok o b₁ => exact .of_same (Builder.maxStack_closeRegion r o b₁)
  | _ => cases hop

/-- Of an operation that rests once there is only its end. -/
theorem rests_of_restsOnce {op : Operation} (hop : op.restsOnce = true) (b : Builder σ) :
    op.rests b = [op.answer.reached b] := by
  cases op with
  | beginHandler r kind => cases hop
  | endRegion r => cases hop
  | _ => rfl

/-- The stack of an operation's end is covered. -/
theorem covered (op : Operation) {b : Builder σ} (h : b.draft.Covered) :
    (op.answer.reached b).draft.Covered := by
  rw [← op.reached_perform]
  exact h.steps (op.steps b)

end Operation

/-! ## § The deepest stack -/

/-- The depth of the deepest of some stacks; 0 if there are none. -/
def deepest (visited : List AbstractStack) : Nat := visited.foldr (fun s n => max s.depth n) 0

@[simp] theorem deepest_cons (s : AbstractStack) (visited : List AbstractStack) :
    deepest (s :: visited) = max s.depth (deepest visited) := rfl

/-- **`Operation.maxStack_eq`** — an operation raises the maximum to the deepest of the stacks that it rests
with. -/
theorem Operation.maxStack_eq {σ : Type} [CodeSink σ] (op : Operation) {b : Builder σ} (h : b.draft.Covered)
    {past : List AbstractStack} (hpast : b.draft.maxStack = deepest past) :
    (op.answer.reached b).draft.maxStack = deepest ((op.rests b).map (·.draft.stack) ++ past) := by
  cases hop : op.restsOnce with
  | true =>
    rw [rests_of_restsOnce hop, (risesTo hop h).peak (op.covered h), hpast]
    exact Nat.max_comm _ _
  | false =>
    obtain ⟨middle, hrests, hsteps, hfirst, hsecond⟩ := exists_rest hop b
    rw [hrests, hsecond.peak (op.covered h), hfirst.peak (h.steps hsteps), hpast]
    simp only [List.map_cons, List.map_nil, List.cons_append, List.nil_append, deepest_cons]
    omega

namespace Builder

variable {σ : Type} [CodeSink σ] {origin : σ} {b : Builder σ} {past : List AbstractStack}

/-- **`Visits`** — a builder that callers come to by any operations, refused ones included, with any handles, and
the stacks at all the points of rest on the way there, latest first.  The type graph is shared, so others may
change it in between. -/
inductive Visits (origin : σ) : Builder σ → List AbstractStack → Prop
  | start (g : TypeGraph) (system : SystemTypes) (method : MethodId) :
    Visits origin (.start g system method origin) []
  | call {b : Builder σ} {past : List AbstractStack} (op : Operation) : Visits origin b past →
    Visits origin (op.answer.reached b) ((op.rests b).map (·.draft.stack) ++ past)
  | regraph {d : Draft} {s : σ} {past : List AbstractStack} (g : TypeGraph) : Visits origin ⟨d, s⟩ past →
    Visits origin ⟨{ d with graph := g }, s⟩ past

theorem Reachable.visits (h : Reachable origin b) : ∃ past, Visits origin b past := by
  induction h with
  | start g system method => exact ⟨[], .start g system method⟩
  | call op _ ih =>
    obtain ⟨past, hpast⟩ := ih
    exact ⟨_, .call op hpast⟩
  | regraph g _ ih =>
    obtain ⟨past, hpast⟩ := ih
    exact ⟨past, .regraph g hpast⟩

theorem Visits.covered (h : Visits origin b past) : b.draft.Covered := by
  induction h with
  | start g system method => exact .start g system method
  | call op _ ih => exact op.covered ih
  | regraph g _ ih => exact ⟨ih.current, ih.recorded, ih.before⟩

theorem Visits.maxStack (h : Visits origin b past) : b.draft.maxStack = deepest past := by
  induction h with
  | start g system method =>
    obtain ⟨g', receiver, hstart, -⟩ := Draft.start_eq g system method
    show (Draft.start g system method).maxStack = 0
    rw [hstart]
  | call op hb ih => exact op.maxStack_eq hb.covered ih
  | regraph g _ ih => exact ih

/-- **`maxStack_exact`** — the maximum is the depth of the deepest stack at any point of rest so far, and nothing
that is recorded for a label or with an instruction is deeper. -/
theorem maxStack_exact (h : Visits origin b past) :
    b.draft.maxStack = deepest past ∧
    (∀ l slots, b.draft.labels.recorded? l = some (.reachable slots) → slots.length ≤ b.draft.maxStack) ∧
    ∀ r ∈ b.draft.records, ∀ slots, r.stackBefore = .reachable slots → slots.length ≤ b.draft.maxStack := by
  refine ⟨h.maxStack, fun l slots hrecorded => ?_, fun r hr slots hslots => ?_⟩
  · exact h.covered.recorded l slots (LabelTable.records_of_recorded? hrecorded)
  · have hbefore := h.covered.before r hr
    rw [hslots] at hbefore
    exact hbefore

end Builder

namespace Sample

/-- Two numbers are delivered to a label, which brings them back behind the branch; one of them is popped. -/
def resumed : Builder Recording :=
  ((Session.start graph system method Recording.empty).run
    [.defineLabel, .instruction (.ldcI4 1), .instruction (.ldcI4 1), .branch (.br ⟨0⟩), .markLabel ⟨0⟩,
      .instruction .pop]).builder

theorem maxStack_exact_resumed : ∃ past, Builder.Visits Recording.empty resumed past ∧
    deepest past = 2 ∧ resumed.draft.stack.depth = 1 := by
  have hpoint : resumed.draft.maxStack = 2 ∧ resumed.draft.stack.depth = 1 := by decide +kernel
  have hreachable : Builder.Reachable Recording.empty resumed :=
    Session.reachable_run (.start graph system method) _
  obtain ⟨past, hpast⟩ := hreachable.visits
  exact ⟨past, hpast, (Builder.maxStack_exact hpast).1.symm.trans hpoint.1, hpoint.2⟩

end Sample

end ManagedCode
