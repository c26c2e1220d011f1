/-
# ManagedCode.Proofs.Builder.Past — what lies behind a builder does not matter to it.

A builder adds to its records, to its journal and to the events of its sink, and never looks back at them.
So a step over a builder with more behind it does the same and leaves the same, with as much more behind it
(`Forgetful`).  That holds of each part that steps are made of, and of whatever is composed of such parts.
-/
import ManagedCode.Proofs.Builder.Replay

namespace ManagedCode

/-! ## § More behind a builder -/

/-- What has been recorded, reported and sent. -/
structure Past where
  records : Array InstructionRecord := #[]
  journal : List JournalEntry := []
  events : Array SinkEvent := #[]

/-- The draft with more behind it. -/
def Draft.withPast (past : Past) (d : Draft) : Draft :=
  { d with records := past.records ++ d.records, journal := d.journal ++ past.journal }

/-- **`withPast`** — the builder with more behind it. -/
def Builder.withPast (past : Past) (b : Builder Recording) : Builder Recording :=
  ⟨b.draft.withPast past, ⟨past.events ++ b.sink.events⟩⟩

/-- The same answer or error, and the builder with more behind it. -/
def Build.leaveWithPast {α : Type} (past : Past) :
    EStateM.Result EmitError (Builder Recording) α → EStateM.Result EmitError (Builder Recording) α
  | .ok a b => .ok a (b.withPast past)
  | .error e b => .error e (b.withPast past)

/-- **`Forgetful`** — the step does the same whatever lies behind the builder. -/
def Build.Forgetful {α : Type} (x : Build Recording α) : Prop :=
  ∀ past b, x (b.withPast past) = leaveWithPast past (x b)

/-! ## § The parts of a step -/

namespace Build.Forgetful

variable {α β : Type}

theorem pure (a : α) : Forgetful (Pure.pure a : Build Recording α) := fun _ _ => rfl

theorem throw (e : EmitError) : Forgetful (MonadExcept.throw e : Build Recording α) := fun _ _ => rfl

theorem view {read : Draft → α} (h : ∀ past d, read (Draft.withPast past d) = read d) :
    Forgetful (Builder.view read) := by
  rintro past ⟨d, w⟩
  show EStateM.Result.ok (read (d.withPast past)) _ = .ok (read d) _
  rw [h]

theorem update {change : Draft → Draft}
    (h : ∀ past d, change (Draft.withPast past d) = (change d).withPast past) :
    Forgetful (Builder.update change) := by
  rintro past ⟨d, w⟩
  show EStateM.Result.ok () (Builder.mk (change (d.withPast past)) _) = .ok () (Builder.mk _ _)
  rw [h]

theorem check {read : Draft → Except EmitError α}
    (h : ∀ past d, read (Draft.withPast past d) = read d) : Forgetful (Builder.check read) := by
  rintro past ⟨d, w⟩
  show Builder.check read ⟨d.withPast past, _⟩ = leaveWithPast past (Builder.check read ⟨d, w⟩)
  rw [Builder.check_run, Builder.check_run, h]
  cases read d <;> rfl

/-- An event is added behind the others. -/
theorem forward (event : SinkEvent) : Forgetful (Builder.forward (Recording.push event)) := by
  rintro past ⟨d, w⟩
  show EStateM.Result.ok () (Builder.mk _ (Recording.mk ((past.events ++ w.events).push event))) =
    .ok () (Builder.mk _ (Recording.mk (past.events ++ w.events.push event)))
  rw [Array.append_push]

theorem bind {x : Build Recording α} {f : α → Build Recording β} (hx : Forgetful x)
    (hf : ∀ a, Forgetful (f a)) : Forgetful (x >>= f) := by
  intro past b
  rw [Builder.bind_run, Builder.bind_run, hx past b]
  cases x b with
  | error e b' => rfl
  | ok a b' => exact hf a past b'

end Build.Forgetful

/-! ## § Checks and updates of a draft -/

namespace Draft

variable (past : Past)

theorem checkLabels_withPast (d : Draft) (targets : List Label) :
    (d.withPast past).checkLabels targets = d.checkLabels targets := by
  induction targets with
  | nil => rfl
  | cons l rest ih => rw [checkLabels, checkLabels, ih, withPast]

theorem checkEdges_withPast (d : Draft) (delivered : AbstractStack) (targets : List Label) :
    (d.withPast past).checkEdges delivered targets = d.checkEdges delivered targets := by
  induction targets with
  | nil => rfl
  | cons l rest ih => rw [checkEdges, checkEdges, ih, withPast]

theorem checkBranch_withPast (d : Draft) (b : Branch Label) :
    (d.withPast past).checkBranch b = d.checkBranch b := by
  unfold checkBranch
  simp only [checkLabels_withPast, checkEdges_withPast]
  rfl

theorem addResultTypes_withPast (insn : Instruction) (d : Draft) :
    (d.withPast past).addResultTypes insn = (d.addResultTypes insn).withPast past := by
  rw [addResultTypes_eq, addResultTypes_eq]
  rfl

theorem commitInstruction_withPast (insn : Instruction) (after : AbstractStack) (d : Draft) :
    (d.withPast past).commitInstruction insn after = (d.commitInstruction insn after).withPast past := by
  have hrecords : (past.records ++ d.records).push ⟨.straight insn, d.stack⟩ =
      past.records ++ d.records.push ⟨.straight insn, d.stack⟩ := Array.append_push.symm
  show Draft.mk .. = Draft.mk ..
  congr 1

theorem receiveEdges_withPast (delivered : AbstractStack) (targets : List Label) (d : Draft) :
    targets.foldl (receiveEdge delivered) (d.withPast past) =
      (targets.foldl (receiveEdge delivered) d).withPast past := by
  have hone (l : Label) (d : Draft) :
      receiveEdge delivered (d.withPast past) l = (receiveEdge delivered d l).withPast past := by
    have hlate : (d.withPast past).labels.isLateEdge l delivered = d.labels.isLateEdge l delivered := rfl
    unfold receiveEdge
    simp only [hlate]
    split <;> rfl
  induction targets generalizing d with
  | nil => rfl
  | cons l rest ih => rw [List.foldl_cons, List.foldl_cons, hone, ih]

theorem commitBranch_withPast (b : Branch Label) (j : AbstractStack.Jump) (d : Draft) :
    (d.withPast past).commitBranch b j = (d.commitBranch b j).withPast past := by
  rw [commitBranch, commitBranch, receiveEdges_withPast]
  generalize b.targets.foldl (receiveEdge j.delivered) d = d'
  have hrecords : (past.records ++ d'.records).push ⟨.branch b, d'.stack⟩ =
      past.records ++ d'.records.push ⟨.branch b, d'.stack⟩ := Array.append_push.symm
  show Draft.mk .. = Draft.mk ..
  congr 1

end Draft

/-! ## § Operations that emit -/

namespace Operation

variable {σ : Type} [CodeSink σ]

/-- The operation emits an instruction or a branch, or a few of them; all others place something in the code
or declare it. -/
def emits : Operation → Bool
  | .declareLocal _ | .defineLabel | .markLabel _ | .beginTry | .beginHandler _ _ | .endRegion _ => false
  | _ => true

open Build Builder in
/-- **`emission_cases`** — the shapes of programs that emit: they may look at the graph and the stack to choose
what they push, and push one branch or up to two instructions. -/
theorem emission_cases {op : Operation} (hop : op.emits = true) (P : Build σ Unit → Prop)
    (hone : ∀ insn, P (pushInstruction insn))
    (htwo : ∀ first second, P (pushInstruction first >>= fun _ => pushInstruction second))
    (hbranch : ∀ b, P (pushBranch b)) (hnothing : P (pure ())) (hrefusal : ∀ e, P (MonadExcept.throw e))
    (hcheck : ∀ {α : Type} (read : TypeGraph → AbstractStack → Except EmitError α) (f : α → Build σ Unit),
      (∀ a, P (f a)) → P (check (fun d => read d.graph d.stack) >>= f))
    (hview : ∀ {α : Type} (read : TypeGraph → α) (f : α → Build σ Unit),
      (∀ a, P (f a)) → P (view (fun d => read d.graph) >>= f)) :
    ∃ x : Build σ Unit, op.answer = (x >>= fun _ => pure .done) ∧ P x := by
  have hsign (operation : SignedChoice) (position : Nat) (f : Signedness → Build σ Unit)
      (hf : ∀ sign, P (f sign)) : P (check (Draft.signednessAt operation position) >>= f) :=
    hcheck (fun g stack => Draft.signednessAt operation position { (default : Draft) with graph := g, stack }) f hf
  cases op with
  | declareLocal t => cases hop
  | defineLabel => cases hop
  | markLabel l => cases hop
  | beginTry => cases hop
  | beginHandler r kind => cases hop
  | endRegion r => cases hop
  | instruction insn => exact ⟨_, rfl, hone insn⟩
  | branch b => exact ⟨_, rfl, hbranch b⟩
  | constLong value =>
    refine ⟨_, rfl, ?_⟩
    unfold Builder.constLong
    split
    · exact htwo _ _
    · exact hone _
  | signed choice =>
    refine ⟨_, rfl, hsign _ _ _ fun sign => ?_⟩
    cases choice.instruction? sign with
    | none => exact hnothing
    | some insn => exact hone insn
  | branchIf relation target =>
    refine ⟨_, rfl, ?_⟩
    unfold Builder.branchIf
    split
    · exact hsign _ _ _ fun sign => hbranch _
    · rw [pure_bind]
      exact hbranch _
  | convert target checked => exact ⟨_, rfl, hsign _ _ _ fun sign => hone _⟩
  | loadElement t =>
    refine ⟨_, rfl, hview (fun g => (g.type t).isStruct) _ fun isStruct => ?_⟩
    split
    · exact htwo _ _
    · exact hone _
  | loadIndirect t =>
    refine ⟨_, rfl, hview (fun g => (g.type t).isStruct) _ fun isStruct => ?_⟩
    split <;> exact hone _
  | storeIndirect t =>
    refine ⟨_, rfl, hview (fun g => (g.type t).isStruct) _ fun isStruct => ?_⟩
    split <;> exact hone _
  | accessField access f =>
    refine ⟨_, rfl, hview (fun g => (g.field f).isStatic) _ fun isStatic => ?_⟩
    split <;> exact hone _
  | callVirtual m receiver =>
    refine ⟨_, rfl, ?_⟩
    cases receiver with
    | none => exact hrefusal _
    | some r =>
      refine hview (fun g => dispatchOf g m r) _ fun dispatch => ?_
      cases dispatch with
      | direct => exact hone _
      | «virtual» => exact hone _
      | constrained => exact htwo _ _

end Operation

/-! ## § Every operation is forgetful -/

namespace Builder

open Build Draft

theorem declareLocal_forgetful (type : TypeId) : (declareLocal type : Build Recording LocalSlot).Forgetful := by
  unfold declareLocal
  refine Forgetful.bind (.view fun _ _ => rfl) fun count => ?_
  split
  · exact Forgetful.bind (.update fun _ _ => rfl) fun _ => .pure _
  · exact .throw _

theorem defineLabel_forgetful : (defineLabel : Build Recording Label).Forgetful :=
  Forgetful.bind (.view fun _ _ => rfl) fun _ => .bind (.update fun _ _ => rfl) fun _ => .pure _

theorem markLabel_forgetful (l : Label) : (markLabel l : Build Recording Unit).Forgetful := by
  unfold markLabel
  refine Forgetful.bind (.check fun _ _ => rfl) fun _ => .bind (.check fun _ _ => rfl) fun placed => ?_
  refine .bind (.update fun _ _ => rfl) fun _ => .bind (.forward (.label l)) fun _ => ?_
  exact .update fun _ _ => rfl

theorem verify_forgetful (insn : Instruction) : (verify insn : Build Recording AbstractStack).Forgetful := by
  unfold verify
  refine Forgetful.bind (.update fun past d => addResultTypes_withPast past insn d) fun _ => ?_
  refine .bind (.view fun _ _ => rfl) fun result => ?_
  cases result with
  | ok after => exact .pure _
  | error fault =>
    have hthrow : (MonadExcept.throw (.verification (.instruction insn) fault) :
        Build Recording AbstractStack).Forgetful := .throw _
    cases hentry : JournalEntry.ofFault? insn fault with
    | none =>
      simp only [hentry]
      exact hthrow
    | some entry =>
      simp only [hentry]
      exact .bind (.update fun _ _ => rfl) fun _ => hthrow

theorem pushInstruction_forgetful (insn : Instruction) :
    (pushInstruction insn : Build Recording Unit).Forgetful := by
  have hemit : (verify insn >>= fun after => emitVerified insn after : Build Recording Unit).Forgetful := by
    refine .bind (verify_forgetful insn) fun after => .bind (.view fun _ _ => rfl) fun g => ?_
    refine .bind (.forward (.code (.straight insn))) fun _ => .bind (.update fun _ _ => rfl) fun _ => ?_
    exact .update fun past d => commitInstruction_withPast past insn after d
  unfold pushInstruction
  split
  · exact Forgetful.bind (.check fun _ _ => rfl) fun _ => hemit
  · exact hemit

theorem pushBranch_forgetful (b : Branch Label) : (pushBranch b : Build Recording Unit).Forgetful := by
  refine Forgetful.bind (.check fun past d => checkBranch_withPast past d b) fun j => ?_
  refine .bind (.forward (.code (.branch b))) fun _ => .bind (.update fun _ _ => rfl) fun _ => ?_
  exact .update fun past d => commitBranch_withPast past b j d

theorem beginTry_forgetful : (beginTry : Build Recording Region).Forgetful := by
  unfold beginTry
  refine Forgetful.bind (.check fun _ _ => rfl) fun _ => .bind defineLabel_forgetful fun _ => ?_
  refine .bind (.check fun _ _ => rfl) fun opened => .bind (.update fun _ _ => rfl) fun _ => ?_
  refine .bind (.view fun _ _ => rfl) fun g => .bind (.forward (.beginRegion opened.1 .tryBlock)) fun _ => ?_
  exact .bind (.update fun _ _ => rfl) fun _ => .pure _

theorem openHandler_forgetful (tryRegion : Region) (kind : RegionKind) :
    (openHandler tryRegion kind : Build Recording Region).Forgetful := by
  unfold openHandler
  refine Forgetful.bind (.check fun _ _ => rfl) fun opened => .bind (.update fun _ _ => rfl) fun _ => ?_
  refine .bind (.view fun _ _ => rfl) fun g => .bind (.forward (.beginRegion opened.1 kind)) fun _ => ?_
  refine .bind (.update fun past d => ?_) fun _ => .bind (.update fun _ _ => rfl) fun _ => .pure _
  have hstack : (d.withPast past).handlerStack kind = d.handlerStack kind := by cases kind <;> rfl
  simp only [hstack]
  rfl

theorem beginHandler_forgetful (tryRegion : Region) (kind : RegionKind) :
    (beginHandler tryRegion kind : Build Recording Region).Forgetful := by
  unfold beginHandler
  refine Forgetful.bind (.check fun _ _ => rfl) fun _ => .bind (.check fun _ _ => rfl) fun entry => ?_
  refine .bind (.view fun _ _ => rfl) fun reachable => ?_
  split
  · exact .bind (pushBranch_forgetful _) fun _ => openHandler_forgetful tryRegion kind
  · exact openHandler_forgetful tryRegion kind

theorem closeRegion_forgetful (region : Region) (o : OpenRegion) :
    (closeRegion region o : Build Recording Unit).Forgetful := by
  unfold closeRegion
  refine Forgetful.bind (.check fun _ _ => rfl) fun _ => .bind (.update fun _ _ => rfl) fun _ => ?_
  refine .bind (.forward (.endRegion region)) fun _ => .bind (.update fun _ _ => rfl) fun _ => ?_
  split
  · exact markLabel_forgetful o.endLabel
  · exact .pure _

theorem endRegion_forgetful (region : Region) : (endRegion region : Build Recording Unit).Forgetful := by
  unfold endRegion
  refine Forgetful.bind (.check fun _ _ => rfl) fun _ => .bind (.check fun _ _ => rfl) fun o => ?_
  refine .bind (.view fun _ _ => rfl) fun reachable => ?_
  show Build.Forgetful
    (if o.kind.isHandler && reachable then pushBranch o.exit >>= fun _ => closeRegion region o
      else closeRegion region o)
  split
  · exact .bind (pushBranch_forgetful o.exit) fun _ => closeRegion_forgetful region o
  · exact closeRegion_forgetful region o

end Builder

/-- **`answer_forgetful`** — whatever a builder is asked for, it does the same with more behind it. -/
theorem Operation.answer_forgetful (op : Operation) : (op.answer : Build Recording Answer).Forgetful := by
  have hdone {α : Type} {x : Build Recording α} (h : x.Forgetful) (f : α → Answer) :
      (x >>= fun a => pure (f a) : Build Recording Answer).Forgetful := .bind h fun a => .pure (f a)
  by_cases hemits : op.emits = true
  · have htwo (first second : Instruction) :
        (Builder.pushInstruction first >>= fun _ => Builder.pushInstruction second :
          Build Recording Unit).Forgetful :=
      .bind (Builder.pushInstruction_forgetful first) fun _ => Builder.pushInstruction_forgetful second
    obtain ⟨x, hanswer, hx⟩ := emission_cases hemits Build.Forgetful Builder.pushInstruction_forgetful htwo
      Builder.pushBranch_forgetful (.pure ()) .throw
      (fun read f hf => .bind (.check fun _ _ => rfl) hf) (fun read f hf => .bind (.view fun _ _ => rfl) hf)
    rw [hanswer]
    exact hdone hx _
  · cases op with
    | declareLocal t => exact hdone (Builder.declareLocal_forgetful t) _
    | defineLabel => exact hdone Builder.defineLabel_forgetful _
    | markLabel l => exact hdone (Builder.markLabel_forgetful l) _
    | beginTry => exact hdone Builder.beginTry_forgetful _
    | beginHandler r kind => exact hdone (Builder.beginHandler_forgetful r kind) _
    | endRegion r => exact hdone (Builder.endRegion_forgetful r) _
    | _ => exact absurd rfl hemits

end ManagedCode
