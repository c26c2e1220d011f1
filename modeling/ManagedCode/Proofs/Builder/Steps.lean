/-
# ManagedCode.Proofs.Builder.Steps — the changes that operations are made of.

However long an operation is, it changes a builder by a few kinds of steps.  `Step` lists them all, each
with what has been checked by then, and every operation is a sequence of steps (`Operation.steps`).  An
invariant is therefore proved once per kind of step, and holds throughout every session.
-/
import Mathlib.Logic.Relation
import ManagedCode.Proofs.Builder.Draft
import ManagedCode.Proofs.Builder.Session

namespace ManagedCode

/-- What is reported about a fault is an argument that does not fit. -/
theorem JournalEntry.ofFault?_eq_some {insn : Instruction} {fault : VerifierFault} {entry : JournalEntry}
    (h : ofFault? insn fault = some entry) :
    ∃ found expected m, entry = .incompatibleArgument found expected m := by
  rw [ofFault?.eq_def] at h
  split at h
  · obtain ⟨m, -, rfl⟩ := Option.map_eq_some_iff.mp h
    exact ⟨_, _, m, rfl⟩
  · cases h

variable {σ : Type} [CodeSink σ]

/-! ## § Steps -/

/-- The branches that the operation may emit: those it chooses from, and the exit of the innermost region. -/
def Operation.Emits (op : Operation) (d : Draft) (branch : Branch Label) : Prop :=
  branch ∈ op.branches ∨ ∃ o ∈ d.regions.innermost?, branch = o.exit

/-- **`Step`** — one change of a builder in the course of an operation.  A call that the sink refuses
leaves what has been changed before it. -/
inductive Step (op : Operation) : Builder σ → Builder σ → Prop
  | declareLocal {d : Draft} {w : σ} {t : TypeId} : t ∈ op.types →
      Step op ⟨d, w⟩ ⟨{ d with locals := d.locals.push t }, w⟩
  | defineLabel {d : Draft} {w : σ} :
      Step op ⟨d, w⟩ ⟨{ d with labels := d.labels.define.2 }, w⟩
  -- Instructions
  | addResultTypes {d : Draft} {w : σ} {insn : Instruction} : insn ∈ op.instructions →
      Step op ⟨d, w⟩ ⟨d.addResultTypes insn, w⟩
  | report {d : Draft} {w : σ} {found : TypeTag} {expected : Expect} {m : MethodId} :
      Step op ⟨d, w⟩ ⟨d.note (.incompatibleArgument found expected m), w⟩
  | instruction {d : Draft} {w w' : σ} {insn : Instruction} {after : AbstractStack} :
      insn ∈ op.instructions → (d.constrained ≠ none → insn.isVirtualCall = true) →
      d.stack.step (d.addResultTypes insn).graph (d.addResultTypes insn).context insn = .ok after →
      CodeSink.emit (d.addResultTypes insn).graph insn w = .ok () w' →
      Step op ⟨d, w⟩
        ⟨((d.addResultTypes insn).note (.emitted ⟨.straight insn, d.stack⟩)).commitInstruction insn after, w'⟩
  | instructionRefused {d : Draft} {w w' : σ} {insn : Instruction} {e : EmitError} :
      CodeSink.emit d.graph insn w = .error e w' → Step op ⟨d, w⟩ ⟨d, w'⟩
  -- Branches
  | branch {d : Draft} {w w' : σ} {b : Branch Label} {j : AbstractStack.Jump} :
      op.Emits d b → d.checkBranch b = .ok j → CodeSink.emitBranch b w = .ok () w' →
      Step op ⟨d, w⟩ ⟨(d.note (.emitted ⟨.branch b, d.stack⟩)).commitBranch b j, w'⟩
  | branchRefused {d : Draft} {w w' : σ} {b : Branch Label} {e : EmitError} :
      CodeSink.emitBranch b w = .error e w' → Step op ⟨d, w⟩ ⟨d, w'⟩
  -- Placements
  | place {d : Draft} {w w' : σ} {l : Label} {resume : AbstractStack} {labels : LabelTable} :
      op = .markLabel l → d.constrained = none → d.labels.place d.graph l d.stack = .ok (resume, labels) →
      CodeSink.markLabel l w = .ok () w' →
      Step op ⟨d, w⟩ ⟨{ d with labels, stack := resume }.note (.labelPlaced l resume), w'⟩
  | placeRefused {d : Draft} {w w' : σ} {l : Label} {resume : AbstractStack} {labels : LabelTable}
      {e : EmitError} :
      op = .markLabel l → d.labels.place d.graph l d.stack = .ok (resume, labels) →
      CodeSink.markLabel l w = .error e w' → Step op ⟨d, w⟩ ⟨{ d with labels }, w'⟩
  -- Regions
  | beginTry {d : Draft} {w w' : σ} {region : Region} {regions : RegionTracker} :
      d.constrained = none → d.regions.beginTry d.labels.fresh = .ok (region, regions) →
      CodeSink.beginRegion d.graph region .tryBlock none w = .ok () w' →
      Step op ⟨d, w⟩
        ⟨{ d with labels := d.labels.define.2, regions }.note (.tryStarted region d.stack), w'⟩
  | beginTryRefused {d : Draft} {w w' : σ} {region : Region} {regions : RegionTracker} {e : EmitError} :
      d.regions.beginTry d.labels.fresh = .ok (region, regions) →
      CodeSink.beginRegion d.graph region .tryBlock none w = .error e w' →
      Step op ⟨d, w⟩ ⟨{ d with labels := d.labels.define.2, regions }, w'⟩
  | beginHandler {d : Draft} {w w' : σ} {tryRegion region : Region} {kind : RegionKind}
      {regions : RegionTracker} :
      op = .beginHandler tryRegion kind → d.constrained = none →
      (d.stack.isReachable = true → d.regions.BetweenHandlers) →
      d.regions.beginHandler tryRegion kind = .ok (region, regions) →
      CodeSink.beginRegion d.graph region kind (some tryRegion) w = .ok () w' →
      Step op ⟨d, w⟩
        ⟨({ d with regions }.withStack (d.handlerStack kind)).note
          (.handlerStarted kind region (d.handlerStack kind)), w'⟩
  | beginHandlerRefused {d : Draft} {w w' : σ} {tryRegion region : Region} {kind : RegionKind}
      {regions : RegionTracker} {e : EmitError} :
      (d.stack.isReachable = true → d.regions.BetweenHandlers) →
      d.regions.beginHandler tryRegion kind = .ok (region, regions) →
      CodeSink.beginRegion d.graph region kind (some tryRegion) w = .error e w' →
      Step op ⟨d, w⟩ ⟨{ d with regions }, w'⟩
  | endHandler {d : Draft} {w w' : σ} {region : Region} {o : OpenRegion} {regions : RegionTracker} :
      d.constrained = none → o.kind ≠ .tryBlock → d.stack = .unreachable →
      d.regions.endRegion region = .ok (o, regions) →
      CodeSink.endRegion region w = .ok () w' →
      Step op ⟨d, w⟩ ⟨{ d with regions }.note (.regionEnded o.kind region), w'⟩
  | endTry {d : Draft} {w w₁ w' : σ} {region : Region} {o : OpenRegion} {regions : RegionTracker}
      {resume : AbstractStack} {labels : LabelTable} :
      d.constrained = none → o.kind = .tryBlock →
      d.regions.endRegion region = .ok (o, regions) →
      CodeSink.endRegion region w = .ok () w₁ →
      d.labels.place d.graph o.endLabel d.stack = .ok (resume, labels) →
      CodeSink.markLabel o.endLabel w₁ = .ok () w' →
      Step op ⟨d, w⟩
        ⟨({ d with regions, labels, stack := resume }.note (.regionEnded o.kind region)).note
          (.labelPlaced o.endLabel resume), w'⟩
  | endTryUnplaced {d : Draft} {w w' : σ} {region : Region} {o : OpenRegion} {regions : RegionTracker}
      {e : EmitError} :
      o.kind = .tryBlock → d.regions.endRegion region = .ok (o, regions) →
      CodeSink.endRegion region w = .ok () w' →
      d.labels.place d.graph o.endLabel d.stack = .error e → d.constrained = none →
      Step op ⟨d, w⟩ ⟨{ d with regions }.note (.regionEnded o.kind region), w'⟩
  | endTryRefused {d : Draft} {w w₁ w' : σ} {region : Region} {o : OpenRegion} {regions : RegionTracker}
      {resume : AbstractStack} {labels : LabelTable} {e : EmitError} :
      o.kind = .tryBlock → d.regions.endRegion region = .ok (o, regions) →
      CodeSink.endRegion region w = .ok () w₁ →
      d.labels.place d.graph o.endLabel d.stack = .ok (resume, labels) →
      CodeSink.markLabel o.endLabel w₁ = .error e w' →
      Step op ⟨d, w⟩ ⟨{ d with regions, labels }.note (.regionEnded o.kind region), w'⟩
  | endRefused {d : Draft} {w w' : σ} {region : Region} {o : OpenRegion} {regions : RegionTracker}
      {e : EmitError} :
      (o.kind ≠ .tryBlock → d.stack = .unreachable) →
      d.regions.endRegion region = .ok (o, regions) →
      CodeSink.endRegion region w = .error e w' → Step op ⟨d, w⟩ ⟨{ d with regions }, w'⟩

/-! ## § What no step undoes -/

/-- A step may add types to the graph. -/
theorem Step.graph_extends {op : Operation} {b b' : Builder σ} (h : Step op b b') :
    b.draft.graph.Extends b'.draft.graph := by
  have hresult (d : Draft) (insn : Instruction) :
      d.graph.Extends (if d.stack.isReachable then d.graph.withResultTypes insn else d.graph) := by
    split
    · exact TypeGraph.extends_withResultTypes _ _
    · exact .refl _
  cases h with
  | @addResultTypes d w insn =>
    rw [Draft.addResultTypes_eq]
    exact hresult d insn
  | @instruction d w w' insn =>
    rw [Draft.addResultTypes_eq]
    exact hresult d insn
  | @branch d w w' b j =>
    obtain ⟨late, hcommit, -, -⟩ := Draft.commitBranch_eq b j (d.note (.emitted ⟨.branch b, d.stack⟩))
    rw [hcommit]
    exact .refl _
  | _ => exact .refl _

/-- A step may add to the journal. -/
theorem Step.journal_suffix {op : Operation} {b b' : Builder σ} (h : Step op b b') :
    b.draft.journal <:+ b'.draft.journal := by
  cases h with
  | @addResultTypes d w insn =>
    have hsame : (d.addResultTypes insn).journal = d.journal := by rw [Draft.addResultTypes_eq]
    exact hsame ▸ List.suffix_refl _
  | instruction =>
    rw [Draft.addResultTypes_eq]
    exact List.suffix_cons _ _
  | @branch d w w' b j =>
    obtain ⟨late, hcommit, -, -⟩ := Draft.commitBranch_eq b j (d.note (.emitted ⟨.branch b, d.stack⟩))
    rw [hcommit]
    exact (List.suffix_cons _ _).trans (List.suffix_append late _)
  | report => exact List.suffix_cons _ _
  | place => exact List.suffix_cons _ _
  | beginTry => exact List.suffix_cons _ _
  | beginHandler => exact List.suffix_cons _ _
  | endHandler => exact List.suffix_cons _ _
  | endTry => exact (List.suffix_cons _ _).trans (List.suffix_cons _ _)
  | endTryUnplaced => exact List.suffix_cons _ _
  | endTryRefused => exact List.suffix_cons _ _
  | _ => exact List.suffix_refl _

/-! ## § Emission is made of steps -/

/-- Any number of steps of an operation. -/
abbrev Steps (op : Operation) : Builder σ → Builder σ → Prop := Relation.ReflTransGen (Step op)

/-- A part of an operation that changes builders by steps only. -/
def Build.IsSteps {α : Type} (op : Operation) (x : Build σ α) : Prop := ∀ b, Steps op b (x.reached b)

namespace Build

variable {op : Operation} {α β : Type}

theorem IsSteps.pure (a : α) : IsSteps op (Pure.pure a : Build σ α) := fun _ => .refl

theorem IsSteps.throw (e : EmitError) : IsSteps op (MonadExcept.throw e : Build σ α) := fun _ => .refl

theorem IsSteps.view (read : Draft → α) : IsSteps op (Builder.view read : Build σ α) := fun _ => .refl

theorem IsSteps.check (read : Draft → Except EmitError α) :
    IsSteps op (Builder.check read : Build σ α) := by
  rintro ⟨d, w⟩
  rw [reached, Builder.check_run]
  cases read d <;> exact .refl

theorem IsSteps.bind {x : Build σ α} {f : α → Build σ β} (hx : IsSteps op x)
    (hf : ∀ a, IsSteps op (f a)) : IsSteps op (x >>= f) := by
  intro b
  have hfirst := hx b
  rw [reached] at hfirst ⊢
  rw [Builder.bind_run]
  cases hresult : x b with
  | error e b' =>
    rw [hresult] at hfirst
    exact hfirst
  | ok a b' =>
    rw [hresult] at hfirst
    exact hfirst.trans (hf a b')

end Build

namespace Builder

variable {op : Operation}

theorem pushInstruction_isSteps {insn : Instruction} (hinsn : insn ∈ op.instructions) :
    (pushInstruction insn : Build σ Unit).IsSteps op := by
  rintro ⟨d, w⟩
  rw [Build.reached, pushInstruction_run]
  by_cases hqualified : insn.isVirtualCall = false ∧ d.constrained ≠ none
  · rw [if_pos hqualified]
  · have hstack : (d.addResultTypes insn).stack = d.stack := by
      rw [Draft.addResultTypes]
      split <;> rfl
    rw [if_neg hqualified, hstack]
    cases hstep : d.stack.step (d.addResultTypes insn).graph (d.addResultTypes insn).context insn with
    | error fault =>
      refine Relation.ReflTransGen.head (.addResultTypes hinsn) ?_
      show Steps op _ ⟨reportFault insn fault (d.addResultTypes insn), w⟩
      rw [reportFault]
      cases hentry : JournalEntry.ofFault? insn fault with
      | none => exact .refl
      | some entry =>
        obtain ⟨found, expected, m, rfl⟩ := JournalEntry.ofFault?_eq_some hentry
        exact .single .report
    | ok after =>
      simp only [emitVerified_run, hstack]
      cases hsink : CodeSink.emit (d.addResultTypes insn).graph insn w with
      | error e w' =>
        exact Relation.ReflTransGen.head (.addResultTypes hinsn) (.single (.instructionRefused hsink))
      | ok _ w' =>
        refine .single (.instruction hinsn ?_ hstep hsink)
        intro hwaits
        cases hvirtual : insn.isVirtualCall with
        | true => rfl
        | false => exact absurd ⟨hvirtual, hwaits⟩ hqualified

theorem pushBranch_steps {b : Branch Label} {d : Draft} (hb : op.Emits d b) (w : σ) :
    Steps op ⟨d, w⟩ ((pushBranch b).reached ⟨d, w⟩) := by
  rw [Build.reached, pushBranch_run]
  cases hcheck : d.checkBranch b with
  | error e => exact .refl
  | ok j =>
    cases hsink : CodeSink.emitBranch b w with
    | error e w' => exact .single (.branchRefused hsink)
    | ok _ w' => exact .single (.branch hb hcheck hsink)

theorem pushBranch_isSteps {b : Branch Label} (hb : b ∈ op.branches) :
    (pushBranch b : Build σ Unit).IsSteps op := fun ⟨_, w⟩ => pushBranch_steps (.inl hb) w

/-- Where a label has been placed, the stack is the one that the label resumes with. -/
theorem markLabel_ok {l : Label} {d : Draft} {w : σ} {b' : Builder σ}
    (h : markLabel l ⟨d, w⟩ = .ok () b') :
    ∃ labels, d.labels.place d.graph l d.stack = .ok (b'.draft.stack, labels) := by
  rw [markLabel_run] at h
  cases hcheck : d.checkUnqualified (.placement l) with
  | error e =>
    rw [hcheck] at h
    cases h
  | ok =>
    rw [hcheck] at h
    cases hplace : d.labels.place d.graph l d.stack with
    | error e =>
      simp only [hplace] at h
      cases h
    | ok placed =>
      obtain ⟨resume, labels⟩ := placed
      simp only [hplace] at h
      cases hmark : CodeSink.markLabel l w with
      | error e w' =>
        simp only [hmark] at h
        cases h
      | ok _ w' =>
        simp only [hmark] at h
        cases h
        exact ⟨labels, rfl⟩

/-- Placing a label changes nothing or is one step. -/
theorem markLabel_atMostOne {l : Label} (b : Builder σ) :
    (markLabel l).reached b = b ∨ Step (.markLabel l) b ((markLabel l).reached b) := by
  obtain ⟨d, w⟩ := b
  rw [Build.reached, markLabel_run]
  cases hcheck : d.checkUnqualified (.placement l) with
  | error e => exact .inl rfl
  | ok =>
    have hfree := Draft.checkUnqualified_ok_iff.mp hcheck
    cases hplace : d.labels.place d.graph l d.stack with
    | error e => exact .inl rfl
    | ok placed =>
      obtain ⟨resume, labels⟩ := placed
      cases hsink : CodeSink.markLabel l w with
      | error e w' => exact .inr (.placeRefused rfl hplace hsink)
      | ok _ w' => exact .inr (.place rfl hfree hplace hsink)

theorem markLabel_isSteps {l : Label} (hop : op = .markLabel l) :
    (markLabel l : Build σ Unit).IsSteps op := by
  intro b
  rcases markLabel_atMostOne (l := l) b with hsame | hone
  · rw [hsame]
  · exact .single (hop ▸ hone)

/-- The step that places a label is the operation, which answers. -/
theorem markLabel_succeeds {l : Label} {d : Draft} {w w' : σ} {resume : AbstractStack}
    {labels : LabelTable} (hfree : d.constrained = none)
    (hplace : d.labels.place d.graph l d.stack = .ok (resume, labels))
    (hsink : CodeSink.markLabel l w = .ok () w') : (markLabel l).succeeds ⟨d, w⟩ = true := by
  have hcheck : d.checkUnqualified (.placement l) = .ok () := Draft.checkUnqualified_ok_iff.mpr hfree
  simp only [Build.succeeds, markLabel_run, hcheck, hplace, hsink]

theorem declareLocal_isSteps {t : TypeId} (ht : t ∈ op.types) :
    (declareLocal t : Build σ LocalSlot).IsSteps op := by
  rintro ⟨d, w⟩
  rw [Build.reached, declareLocal_run]
  by_cases hlimit : d.locals.size < localLimit
  · rw [if_pos hlimit]
    exact .single (.declareLocal ht)
  · rw [if_neg hlimit]

/-! ## § Regions open and close in steps -/

theorem beginTry_isSteps : (beginTry : Build σ Region).IsSteps op := by
  rintro ⟨d, w⟩
  rw [Build.reached, beginTry_run]
  cases hcheck : d.checkUnqualified .tryStart with
  | error e => exact .refl
  | ok =>
    have hfree := Draft.checkUnqualified_ok_iff.mp hcheck
    cases htry : d.regions.beginTry d.labels.fresh with
    | error fault => exact .single .defineLabel
    | ok opened =>
      obtain ⟨region, regions⟩ := opened
      cases hsink : CodeSink.beginRegion d.graph region .tryBlock none w with
      | error e w' =>
        simp only [hsink]
        exact .single (.beginTryRefused htry hsink)
      | ok _ w' =>
        simp only [hsink]
        exact .single (.beginTry hfree htry hsink)

/-- Where a terminal branch has been emitted, the code is dead and the regions are what they were. -/
theorem pushBranch_ok {b : Branch Label} (hb : b.isTerminal = true) {d : Draft} {w : σ} {b' : Builder σ}
    (h : pushBranch b ⟨d, w⟩ = .ok () b') :
    b'.draft.stack = .unreachable ∧ b'.draft.regions = d.regions ∧ b'.draft.constrained = none := by
  rw [pushBranch_run] at h
  cases hcheck : d.checkBranch b with
  | error e =>
    rw [hcheck] at h
    cases h
  | ok j =>
    rw [hcheck] at h
    obtain ⟨hfree, -, hjump, -⟩ := Draft.checkBranch_ok hcheck
    obtain ⟨late, hcommit, -, -⟩ :=
      Draft.commitBranch_eq b j (d.note (.emitted ⟨.branch b, d.stack⟩))
    cases hsink : CodeSink.emitBranch b w with
    | error e w' =>
      simp only [hsink] at h
      cases h
    | ok _ w' =>
      simp only [hsink, hcommit] at h
      cases h
      exact ⟨AbstractStack.jump_terminal hb hjump, rfl, hfree⟩

/-- **`approachHandler_ok`** — where a handler may start the code is dead, except between handlers where it
was reachable before: no exit is emitted there. -/
theorem approachHandler_ok {tryRegion : Region} {kind : RegionKind} {d : Draft} {w : σ} {b : Builder σ}
    (h : approachHandler tryRegion kind ⟨d, w⟩ = .ok () b) :
    b.draft.constrained = none ∧ b.draft.regions = d.regions ∧
      (b.draft.stack.isReachable = true ↔ d.regions.BetweenHandlers ∧ d.stack.isReachable = true) := by
  rw [approachHandler_run] at h
  cases hcheck : d.checkUnqualified (.handlerStart kind) with
  | error e =>
    rw [hcheck] at h
    cases h
  | ok =>
    rw [hcheck] at h
    cases hentry : d.regions.checkHandler tryRegion kind with
    | error fault =>
      simp only [hentry] at h
      cases h
    | ok entry =>
      obtain ⟨o, rest, hopened, -, hblock, -, rfl⟩ := RegionTracker.checkHandler_ok hentry
      rw [RegionTracker.betweenHandlers_iff hopened]
      simp only [hentry] at h
      by_cases hexit : (o.handlers == 0) = true ∧ d.stack.isReachable = true
      · rw [if_pos hexit] at h
        obtain ⟨hstack, hregions, hfree⟩ := pushBranch_ok rfl h
        refine ⟨hfree, hregions, ?_⟩
        rw [hstack]
        constructor
        · intro hreachable
          cases hreachable
        · rintro ⟨⟨-, hhandlers⟩, -⟩
          exact absurd (beq_iff_eq.mp hexit.1) hhandlers
      · rw [if_neg hexit] at h
        cases h
        refine ⟨Draft.checkUnqualified_ok_iff.mp hcheck, rfl, ?_, And.right⟩
        intro hreachable
        exact ⟨⟨hblock, fun hnone => hexit ⟨beq_iff_eq.mpr hnone, hreachable⟩⟩, hreachable⟩

theorem approachHandler_isSteps {tryRegion : Region} {kind : RegionKind} :
    (approachHandler tryRegion kind : Build σ Unit).IsSteps op := by
  rintro ⟨d, w⟩
  rw [Build.reached, approachHandler_run]
  cases d.checkUnqualified (.handlerStart kind) with
  | error e => exact .refl
  | ok =>
    cases hentry : d.regions.checkHandler tryRegion kind with
    | error fault => exact .refl
    | ok entry =>
      obtain ⟨o, rest, hopened, -, hblock, -, rfl⟩ := RegionTracker.checkHandler_ok hentry
      by_cases hexit : (o.handlers == 0) = true ∧ d.stack.isReachable = true
      · simp only [if_pos hexit]
        refine pushBranch_steps (.inr ⟨o, RegionTracker.innermost?_of_opened hopened, ?_⟩) w
        rw [OpenRegion.exit, hblock]
      · simp only [if_neg hexit]
        exact .refl

theorem beginHandler_isSteps {tryRegion : Region} {kind : RegionKind}
    (hop : op = .beginHandler tryRegion kind) :
    (beginHandler tryRegion kind : Build σ Region).IsSteps op := by
  rintro ⟨d, w⟩
  have happroach : Steps op ⟨d, w⟩ ((approachHandler tryRegion kind).reached ⟨d, w⟩) :=
    approachHandler_isSteps _
  rw [Build.reached] at happroach ⊢
  rw [beginHandler_run]
  cases hresult : approachHandler tryRegion kind ⟨d, w⟩ with
  | error e b => simpa only [hresult] using happroach
  | ok _ b =>
    simp only [hresult] at happroach
    refine happroach.trans ?_
    obtain ⟨hfree, hregions, hdead⟩ := approachHandler_ok hresult
    obtain ⟨d', w'⟩ := b
    have hbetween : d'.stack.isReachable = true → d'.regions.BetweenHandlers :=
      fun hreachable => hregions ▸ (hdead.mp hreachable).1
    simp only [openHandler_run]
    cases hbegin : d'.regions.beginHandler tryRegion kind with
    | error fault => exact .refl
    | ok opened =>
      obtain ⟨region, regions⟩ := opened
      cases hsink : CodeSink.beginRegion d'.graph region kind (some tryRegion) w' with
      | error e w'' =>
        simp only [hsink]
        exact .single (.beginHandlerRefused hbetween hbegin hsink)
      | ok _ w'' =>
        simp only [hsink]
        exact .single (.beginHandler hop hfree hbetween hbegin hsink)

theorem exit_isTerminal (o : OpenRegion) : o.exit.isTerminal = true := by
  rw [OpenRegion.exit]
  cases o.kind <;> rfl

/-- **`approachEnd_ok`** — where a handler may end the code is dead; a block ends with the stack as it is. -/
theorem approachEnd_ok {region : Region} {d : Draft} {w : σ} {o : OpenRegion} {b : Builder σ}
    (h : approachEnd region ⟨d, w⟩ = .ok o b) :
    b.draft.constrained = none ∧ d.regions.checkEnd region = .ok o ∧ b.draft.regions = d.regions ∧
      (o.kind ≠ .tryBlock → b.draft.stack = .unreachable) ∧ (o.kind = .tryBlock → b = ⟨d, w⟩) := by
  rw [approachEnd_run] at h
  cases hcheck : d.checkUnqualified (.regionEnd region) with
  | error e =>
    rw [hcheck] at h
    cases h
  | ok =>
    rw [hcheck] at h
    cases hend : d.regions.checkEnd region with
    | error fault =>
      simp only [hend] at h
      cases h
    | ok o' =>
      simp only [hend] at h
      by_cases hexit : o'.kind.isHandler = true ∧ d.stack.isReachable = true
      · rw [if_pos hexit] at h
        cases hpush : pushBranch o'.exit ⟨d, w⟩ with
        | error e b' =>
          simp only [hpush] at h
          cases h
        | ok _ b' =>
          simp only [hpush] at h
          cases h
          obtain ⟨hstack, hregions, hfree⟩ := pushBranch_ok (exit_isTerminal o) hpush
          exact ⟨hfree, rfl, hregions, fun _ => hstack,
            fun hblock => absurd hblock (RegionKind.isHandler_iff.mp hexit.1)⟩
      · rw [if_neg hexit] at h
        cases h
        refine ⟨Draft.checkUnqualified_ok_iff.mp hcheck, rfl, rfl, ?_, fun _ => rfl⟩
        intro hkind
        cases hstack : d.stack with
        | unreachable => rfl
        | reachable slots =>
          exact absurd ⟨RegionKind.isHandler_iff.mpr hkind, by rw [hstack]; rfl⟩ hexit

theorem approachEnd_isSteps {region : Region} : (approachEnd region : Build σ OpenRegion).IsSteps op := by
  rintro ⟨d, w⟩
  rw [Build.reached, approachEnd_run]
  cases d.checkUnqualified (.regionEnd region) with
  | error e => exact .refl
  | ok =>
    cases hend : d.regions.checkEnd region with
    | error fault => exact .refl
    | ok o =>
      obtain ⟨rest, hopened, -, -⟩ := RegionTracker.checkEnd_ok hend
      by_cases hexit : o.kind.isHandler = true ∧ d.stack.isReachable = true
      · have hemits : op.Emits d o.exit :=
          .inr ⟨o, RegionTracker.innermost?_of_opened hopened, rfl⟩
        have hpush := pushBranch_steps hemits w
        rw [Build.reached] at hpush
        simp only [if_pos hexit]
        cases hresult : pushBranch o.exit ⟨d, w⟩ with
        | ok _ b => simpa only [hresult] using hpush
        | error e b => simpa only [hresult] using hpush
      · simp only [if_neg hexit]
        exact .refl

/-- A region closes, and a protected block places its label, in one step. -/
theorem closeRegion_steps {region : Region} {o : OpenRegion} {d : Draft} (hfree : d.constrained = none)
    (hend : d.regions.checkEnd region = .ok o) (hdead : o.kind ≠ .tryBlock → d.stack = .unreachable)
    (w : σ) : Steps op ⟨d, w⟩ ((closeRegion region o).reached ⟨d, w⟩) := by
  rw [Build.reached, closeRegion_run]
  cases hclose : d.regions.endRegion region with
  | error fault => exact .refl
  | ok closed =>
    obtain ⟨o', regions⟩ := closed
    obtain ⟨hend', -, -⟩ := RegionTracker.endRegion_ok hclose
    cases hend.symm.trans hend'
    cases hsink : CodeSink.endRegion region w with
    | error e w' => exact .single (.endRefused hdead hclose hsink)
    | ok _ w' =>
      by_cases hblock : o.kind = .tryBlock
      · simp only [if_pos hblock, markLabel_run]
        have hcheck : ({ d with regions }.note (.regionEnded o.kind region)).checkUnqualified
            (.placement o.endLabel) = .ok () := Draft.checkUnqualified_ok_iff.mpr hfree
        simp only [hcheck]
        simp only [Draft.note]
        cases hplace : d.labels.place d.graph o.endLabel d.stack with
        | error e => exact .single (.endTryUnplaced hblock hclose hsink hplace hfree)
        | ok placed =>
          obtain ⟨resume, labels⟩ := placed
          cases hmark : CodeSink.markLabel o.endLabel w' with
          | error e w'' =>
            exact .single (.endTryRefused hblock hclose hsink hplace hmark)
          | ok _ w'' =>
            exact .single (.endTry hfree hblock hclose hsink hplace hmark)
      · simp only [if_neg hblock]
        exact .single (.endHandler hfree hblock (hdead hblock) hclose hsink)

theorem endRegion_isSteps {region : Region} : (endRegion region : Build σ Unit).IsSteps op := by
  rintro ⟨d, w⟩
  have happroach : Steps op ⟨d, w⟩ ((approachEnd region).reached ⟨d, w⟩) := approachEnd_isSteps _
  rw [Build.reached] at happroach ⊢
  rw [endRegion_run]
  cases hresult : approachEnd region ⟨d, w⟩ with
  | error e b => simpa only [hresult] using happroach
  | ok o b =>
    simp only [hresult] at happroach
    refine happroach.trans ?_
    obtain ⟨hfree, hend, hregions, hdead, -⟩ := approachEnd_ok hresult
    exact closeRegion_steps hfree (hregions ▸ hend) hdead b.sink

end Builder

/-! ## § Every operation is made of steps -/

open Builder Build in
/-- **`Operation.steps`** — an operation changes builders by steps only, refused or not. -/
theorem Operation.steps (op : Operation) : (op.perform : Build σ (Option Label)).IsSteps op := by
  have hdone : ∀ {α : Type} (a : α), IsSteps op (Pure.pure a : Build σ α) := IsSteps.pure
  cases op with
  | declareLocal t => exact (declareLocal_isSteps (List.mem_singleton_self t)).bind fun _ => hdone _
  | defineLabel => exact fun _ => .single .defineLabel
  | markLabel l => exact (markLabel_isSteps rfl).bind fun _ => hdone _
  | instruction insn =>
    exact (pushInstruction_isSteps (List.mem_singleton_self insn)).bind fun _ => hdone _
  | branch b => exact (pushBranch_isSteps (List.mem_singleton_self b)).bind fun _ => hdone _
  | beginTry => exact beginTry_isSteps.bind fun _ => hdone _
  | beginHandler r kind => exact (beginHandler_isSteps rfl).bind fun _ => hdone _
  | endRegion r => exact endRegion_isSteps.bind fun _ => hdone _
  | constLong value =>
    refine IsSteps.bind ?_ fun _ => hdone _
    rw [Builder.constLong]
    split
    · exact (pushInstruction_isSteps (by simp [instructions])).bind fun _ =>
        pushInstruction_isSteps (by simp [instructions])
    · exact pushInstruction_isSteps (by simp [instructions])
  | signed choice =>
    refine IsSteps.bind ((IsSteps.check _).bind fun sign => ?_) fun _ => hdone _
    cases hinsn : choice.instruction? sign with
    | none => exact hdone _
    | some insn =>
      refine pushInstruction_isSteps (List.mem_filterMap.mpr ⟨sign, ?_, hinsn⟩)
      cases sign <;> simp
  | branchIf relation target =>
    have hbranch (sign : Signedness) :
        (pushBranch (.compare (relation.comparison sign) target) : Build σ Unit).IsSteps
          (.branchIf relation target) := by
      refine pushBranch_isSteps ?_
      cases sign <;> simp [branches]
    have hsigned : (Builder.branchIf relation target : Build σ Unit).IsSteps
        (.branchIf relation target) := by
      unfold Builder.branchIf
      split
      · exact (IsSteps.check _).bind hbranch
      · exact hbranch .signed
    exact hsigned.bind fun _ => hdone _
  | convert target checked =>
    refine IsSteps.bind ((IsSteps.check _).bind fun sign => ?_) fun _ => hdone _
    refine pushInstruction_isSteps ?_
    cases sign <;> simp [instructions]
  | loadElement t =>
    refine IsSteps.bind ((IsSteps.view _).bind fun isStruct => ?_) fun _ => hdone _
    split
    · exact (pushInstruction_isSteps (by simp [instructions])).bind fun _ =>
        pushInstruction_isSteps (by simp [instructions])
    · exact pushInstruction_isSteps (by simp [instructions])
  | loadIndirect t =>
    refine IsSteps.bind ((IsSteps.view _).bind fun isStruct => ?_) fun _ => hdone _
    split <;> exact pushInstruction_isSteps (by simp [instructions])
  | storeIndirect t =>
    refine IsSteps.bind ((IsSteps.view _).bind fun isStruct => ?_) fun _ => hdone _
    split <;> exact pushInstruction_isSteps (by simp [instructions])
  | accessField access f =>
    refine IsSteps.bind ((IsSteps.view _).bind fun isStatic => ?_) fun _ => hdone _
    split <;> exact pushInstruction_isSteps (by simp [instructions])
  | callVirtual m receiver =>
    refine IsSteps.bind ?_ fun _ => hdone _
    cases receiver with
    | none => exact IsSteps.throw _
    | some r =>
      refine (IsSteps.view _).bind fun dispatch => ?_
      cases dispatch with
      | direct => exact pushInstruction_isSteps (by simp [instructions])
      | «virtual» => exact pushInstruction_isSteps (by simp [instructions])
      | constrained =>
        exact (pushInstruction_isSteps (by simp [instructions])).bind fun _ =>
          pushInstruction_isSteps (by simp [instructions])

/-- **`Session.call_induction`** — what no step breaks, no operation breaks.  A label is placed in the state
in which the operation is made. -/
theorem Session.call_induction {op : Operation} {s : Session σ} (Inv : Builder σ → Prop)
    (hstep : ∀ b b', Step op b b' → (∀ l ∈ op.placed?, b = s.builder) → Inv b → Inv b')
    (hs : Inv s.builder) : Inv (s.call op).builder := by
  cases hplaced : op.placed? with
  | none =>
    rw [builder_call]
    have hsteps := op.steps s.builder
    generalize op.perform.reached s.builder = b at hsteps ⊢
    induction hsteps with
    | refl => exact hs
    | tail _ hlast ih => exact hstep _ _ hlast (by simp [hplaced]) ih
  | some l =>
    -- The operation places a label, which takes one step at most.
    have hop : op = .markLabel l := by
      cases op with
      | markLabel l' =>
        cases hplaced
        rfl
      | _ => cases hplaced
    subst hop
    have hsteps := Builder.markLabel_atMostOne (l := l) s.builder
    have hcall : (s.call (.markLabel l)).builder = (Builder.markLabel l).reached s.builder := by
      have hperform : (Operation.markLabel l).perform =
          (Builder.markLabel l >>= fun _ => pure none : Build σ (Option Label)) := rfl
      rw [builder_call, Build.reached, Build.reached, hperform, Builder.bind_run]
      cases Builder.markLabel l s.builder <;> rfl
    rw [hcall]
    rcases hsteps with hsame | hone
    · rw [hsame]
      exact hs
    · exact hstep _ _ hone (fun _ _ => rfl) hs

end ManagedCode
