/-
# ManagedCode.Proofs.Builder.DeadCode — dead code never influences verification.

What is emitted where nothing can be reached leaves records behind, and at most a qualifier that waits for its
call; the code that is verified later starts at a label or a handler, which a waiting qualifier does not admit.
So a session and the same session without its dead code go through the same states (`Shadows`): the builders
differ in what lies behind them, and, only while the code is dead, in the waiting qualifier.
-/
import ManagedCode.Proofs.Builder.Past

namespace ManagedCode

/-! ## § What a caller sees -/

/-- What a caller can see of a builder between two operations: the current stack, the stacks recorded for the
labels, and the open regions. -/
structure Sight where
  stack : AbstractStack
  labels : LabelTable
  regions : RegionTracker
  deriving DecidableEq

/-- What can be seen of the draft. -/
def Draft.sight (d : Draft) : Sight := ⟨d.stack, d.labels, d.regions⟩

/-- One operation of a session: what was seen before it, what it answered, and what was seen after it. -/
structure Moment where
  op : Operation
  before : Sight
  answer : Except EmitError Answer
  after : Sight

namespace Moment

/-- The operation was not refused. -/
def succeeded (m : Moment) : Bool := m.answer.toOption.isSome

/-- The operation emitted where nothing can be reached. -/
def isDead (m : Moment) : Bool := m.op.emits && !m.before.stack.isReachable

end Moment

/-- The answer or the error of an operation. -/
def Operation.reply (op : Operation) (b : Builder Recording) : Except EmitError Answer :=
  match op.answer b with
  | .ok a _ => .ok a
  | .error e _ => .error e

/-- **`moments`** — all that a caller sees of a session. -/
def Session.moments : Session Recording → List Operation → List Moment
  | _, [] => []
  | s, op :: rest =>
    ⟨op, s.builder.draft.sight, op.reply s.builder, (s.call op).builder.draft.sight⟩ ::
      moments (s.call op) rest

/-! ## § Emission in dead and in live code -/

/-- The records of code that can be reached. -/
def Draft.liveRecords (d : Draft) : List InstructionRecord :=
  d.records.toList.filter fun r => r.stackBefore.isReachable

/-- All records are of code that can be reached, and no qualifier waits in dead code. -/
structure Draft.Live (d : Draft) : Prop where
  records : ∀ r ∈ d.records, r.stackBefore.isReachable = true
  constrained : d.stack.isReachable = false → d.constrained = none

/-- Nothing has changed but what lies behind the draft, without records of code that can be reached, and
the waiting qualifier. -/
structure Draft.Inert (d d' : Draft) : Prop where
  same : d' = { d with records := d'.records, journal := d'.journal, constrained := d'.constrained }
  records : d'.liveRecords = d.liveRecords

namespace Draft

theorem Inert.refl (d : Draft) : d.Inert d := ⟨rfl, rfl⟩

theorem Inert.stack {d d' : Draft} (h : d.Inert d') : d'.stack = d.stack := by rw [h.same]

theorem Inert.trans {d d' d'' : Draft} (h : d.Inert d') (h' : d'.Inert d'') : d.Inert d'' := by
  refine ⟨?_, h'.records.trans h.records⟩
  rw [h'.same, h.same]

/-- A record of dead code is none of code that can be reached. -/
theorem liveRecords_push_dead (d : Draft) (item : CodeItem) :
    (d.records.push ⟨item, .unreachable⟩).toList.filter (fun r => r.stackBefore.isReachable) =
      d.liveRecords := by
  rw [Array.toList_push, List.filter_append]
  exact List.append_nil _

theorem Live.push {d d' : Draft} (h : d.Live) (item : CodeItem) (hreachable : d.stack.isReachable = true)
    (hrecords : d'.records = d.records.push ⟨item, d.stack⟩)
    (hconstrained : d'.stack.isReachable = false → d'.constrained = none) : d'.Live := by
  refine ⟨fun r hr => ?_, hconstrained⟩
  rw [hrecords] at hr
  rcases Array.mem_push.mp hr with hr | rfl
  · exact h.records r hr
  · exact hreachable

end Draft

/-- Edges that deliver nothing leave no trace. -/
theorem Draft.edgesInto_unreachable (targets : List Label) (labels : LabelTable) :
    edgesInto .unreachable targets labels = labels := by
  have hone (t : LabelTable) (l : Label) : t.recordEdge l .unreachable = t := by
    unfold LabelTable.recordEdge
    cases t.state? l <;> rfl
  unfold edgesInto
  induction targets with
  | nil => rfl
  | cons l rest ih => rw [List.foldl_cons, hone, ih]

/-- A program that emits does not touch anything else in dead code, and emits live code where the code is
live. -/
structure Build.Sends (x : Build Recording Unit) : Prop where
  live : ∀ {b b'}, x b = .ok () b' → b.draft.stack.isReachable = true → b.draft.Live → b'.draft.Live
  dead : ∀ {b b'}, x b = .ok () b' → b.draft.stack = .unreachable → b.draft.Inert b'.draft

namespace Builder

variable {b b' : Builder Recording}

/-- What an instruction leaves is the stack that it was verified to leave. -/
theorem pushInstruction_ok {insn : Instruction} (h : pushInstruction insn b = .ok () b') :
    ∃ after, b.draft.stack.step (b.draft.addResultTypes insn).graph (b.draft.addResultTypes insn).context insn =
        .ok after ∧
      b'.draft = ((b.draft.addResultTypes insn).note
        (.emitted ⟨.straight insn, b.draft.stack⟩)).commitInstruction insn after := by
  obtain ⟨d, w⟩ := b
  have hstack : (d.addResultTypes insn).stack = d.stack := by rw [Draft.addResultTypes_eq]
  rw [pushInstruction_run, hstack] at h
  split at h
  · cases h
  · split at h
    · rename_i after hafter
      cases h
      refine ⟨after, hafter, ?_⟩
      simp only [hstack]
    · cases h

/-- After an instruction that could be reached so can be what follows. -/
theorem pushInstruction_reachable {insn : Instruction} (h : pushInstruction insn b = .ok () b')
    (hreachable : b.draft.stack.isReachable = true) : b'.draft.stack.isReachable = true := by
  obtain ⟨after, hafter, hdraft⟩ := pushInstruction_ok h
  rw [hdraft]
  show after.isReachable = true
  cases hstack : b.draft.stack with
  | unreachable =>
    rw [hstack] at hreachable
    cases hreachable
  | reachable slots =>
    rw [hstack] at hafter
    obtain ⟨-, out, -, -, rfl⟩ := AbstractStack.step_ok_iff.mp hafter
    rfl

theorem pushInstruction_sends (insn : Instruction) : (pushInstruction insn).Sends where
  live := by
    intro b b' h hreachable hlive
    have hafter := pushInstruction_reachable h hreachable
    obtain ⟨after, -, hdraft⟩ := pushInstruction_ok h
    refine hlive.push (.straight insn) hreachable ?_ fun hdead => ?_
    · rw [hdraft, Draft.addResultTypes_eq]
      rfl
    · rw [hafter] at hdead
      cases hdead
  dead := by
    intro b b' h hdead
    obtain ⟨after, hafter, hdraft⟩ := pushInstruction_ok h
    have hsame : b.draft.addResultTypes insn = b.draft := by
      rw [Draft.addResultTypes, hdead]
      rfl
    rw [hdead] at hafter
    cases hafter
    rw [hdraft, hsame]
    refine ⟨?_, ?_⟩
    · show Draft.mk .. = Draft.mk ..
      congr 1
      · exact hdead.symm
      · exact Nat.max_zero _
    · rw [hdead]
      show (b.draft.records.push ⟨.straight insn, b.draft.stack⟩).toList.filter _ = _
      rw [hdead]
      exact b.draft.liveRecords_push_dead _

theorem pushBranch_sends (branch : Branch Label) : (pushBranch branch).Sends := by
  have hok {b b' : Builder Recording} (h : pushBranch branch b = .ok () b') :
      ∃ j late, b.draft.constrained = none ∧ b.draft.stack.jump b.draft.graph b.draft.context branch = .ok j ∧
        b'.draft = { b.draft with
          labels := Draft.edgesInto j.delivered branch.targets b.draft.labels
          records := b.draft.records.push ⟨.branch branch, b.draft.stack⟩
          stack := j.next
          maxStack := max b.draft.maxStack (j.next.depth?.getD 0)
          journal := late ++ .emitted ⟨.branch branch, b.draft.stack⟩ :: b.draft.journal } := by
    obtain ⟨d, w⟩ := b
    rw [pushBranch_run] at h
    cases hcheck : d.checkBranch branch with
    | error e =>
      rw [hcheck] at h
      cases h
    | ok j =>
      rw [hcheck] at h
      cases h
      obtain ⟨hfree, -, hjump, -⟩ := Draft.checkBranch_ok hcheck
      obtain ⟨late, hcommit, -, -⟩ :=
        Draft.commitBranch_eq branch j (d.note (.emitted ⟨.branch branch, d.stack⟩))
      exact ⟨j, late, hfree, hjump, hcommit⟩
  constructor
  · intro b b' h hreachable hlive
    obtain ⟨j, late, hfree, -, hdraft⟩ := hok h
    refine hlive.push (.branch branch) hreachable ?_ fun _ => ?_
    · rw [hdraft]
    · rw [hdraft]
      exact hfree
  · intro b b' h hdead
    obtain ⟨j, late, hfree, hjump, hdraft⟩ := hok h
    rw [hdead] at hjump
    cases hjump
    rw [hdraft]
    refine ⟨?_, ?_⟩
    · show Draft.mk .. = Draft.mk ..
      congr 1
      · exact hdead.symm
      · exact Draft.edgesInto_unreachable _ _
      · exact Nat.max_zero _
    · show (b.draft.records.push ⟨.branch branch, b.draft.stack⟩).toList.filter _ = _
      rw [hdead]
      exact b.draft.liveRecords_push_dead _

end Builder

/-- Two instructions: the first one leaves the code as live or as dead as it was. -/
theorem Build.Sends.two (first second : Instruction) :
    (Builder.pushInstruction first >>= fun _ => Builder.pushInstruction second).Sends := by
  have hsplit {b b' : Builder Recording}
      (h : (Builder.pushInstruction first >>= fun _ => Builder.pushInstruction second) b = .ok () b') :
      ∃ b₁, Builder.pushInstruction first b = .ok () b₁ ∧ Builder.pushInstruction second b₁ = .ok () b' := by
    rw [Builder.bind_run] at h
    cases hfirst : Builder.pushInstruction first b with
    | error e b₁ =>
      rw [hfirst] at h
      cases h
    | ok _ b₁ =>
      rw [hfirst] at h
      exact ⟨b₁, rfl, h⟩
  constructor
  · intro b b' h hreachable hlive
    obtain ⟨b₁, hfirst, hsecond⟩ := hsplit h
    exact (Builder.pushInstruction_sends second).live hsecond (Builder.pushInstruction_reachable hfirst hreachable)
      ((Builder.pushInstruction_sends first).live hfirst hreachable hlive)
  · intro b b' h hdead
    obtain ⟨b₁, hfirst, hsecond⟩ := hsplit h
    have hinert := (Builder.pushInstruction_sends first).dead hfirst hdead
    exact hinert.trans ((Builder.pushInstruction_sends second).dead hsecond (hinert.stack.trans hdead))

/-- Looking before pushing changes nothing. -/
theorem Build.Sends.look {α : Type} {read : Draft → Except EmitError α} {f : α → Build Recording Unit}
    (hf : ∀ a, (f a).Sends) : (Builder.check read >>= f).Sends := by
  have hlook {b b' : Builder Recording} (h : (Builder.check read >>= f) b = .ok () b') :
      ∃ a, f a b = .ok () b' := by
    obtain ⟨d, w⟩ := b
    rw [Builder.bind_run, Builder.check_run] at h
    cases hread : read d with
    | error e =>
      rw [hread] at h
      cases h
    | ok a =>
      rw [hread] at h
      exact ⟨a, h⟩
  constructor
  · intro b b' h hreachable hlive
    obtain ⟨a, ha⟩ := hlook h
    exact (hf a).live ha hreachable hlive
  · intro b b' h hdead
    obtain ⟨a, ha⟩ := hlook h
    exact (hf a).dead ha hdead

/-- Every operation that emits sends what it emits. -/
theorem Operation.answer_sends {op : Operation} (hemits : op.emits = true) :
    ∃ x : Build Recording Unit, op.answer = (x >>= fun _ => pure .done) ∧ x.Sends := by
  refine emission_cases hemits Build.Sends Builder.pushInstruction_sends Build.Sends.two
    Builder.pushBranch_sends ⟨fun h _ hlive => ?_, fun h _ => ?_⟩ (fun e => ⟨fun h => ?_, fun h => ?_⟩)
    (fun read f hf => Build.Sends.look hf) fun read f hf => ?_
  · cases h
    exact hlive
  · cases h
    exact .refl _
  · cases h
  · cases h
  · exact ⟨fun h => (hf _).live h, fun h => (hf _).dead h⟩

theorem Operation.emission_ok {op : Operation} (hemits : op.emits = true) {a : Answer}
    {b b' : Builder Recording} (h : op.answer b = .ok a b') :
    (b.draft.stack.isReachable = true → b.draft.Live → b'.draft.Live) ∧
      (b.draft.stack = .unreachable → b.draft.Inert b'.draft) := by
  obtain ⟨x, hanswer, hsends⟩ := answer_sends hemits
  rw [hanswer, Builder.bind_run] at h
  cases hx : x b with
  | error e b₁ =>
    rw [hx] at h
    cases h
  | ok _ b₁ =>
    rw [hx] at h
    cases h
    exact ⟨hsends.live hx, hsends.dead hx⟩

/-! ## § Operations that do not emit -/

namespace Builder

variable {α : Type} {b b' : Builder Recording}

/-- What begins with the check passes it. -/
theorem unqualified_of_check {subject : Subject} {f : Unit → Build Recording α} {a : α}
    (h : (check (·.checkUnqualified subject) >>= f) b = .ok a b') : b.draft.constrained = none := by
  obtain ⟨d, w⟩ := b
  rw [bind_run, check_run] at h
  cases hcheck : d.checkUnqualified subject with
  | error e =>
    rw [hcheck] at h
    cases h
  | ok => exact Draft.checkUnqualified_ok_iff.mp hcheck

/-- Labels are placed behind the records, and where no qualifier waits. -/
theorem markLabel_live {l : Label} (h : markLabel l b = .ok () b') :
    b.draft.constrained = none ∧ (b.draft.Live → b'.draft.Live) := by
  have hfree := unqualified_of_check h
  refine ⟨hfree, fun hlive => ?_⟩
  obtain ⟨d, w⟩ := b
  rw [markLabel_run, Draft.checkUnqualified_ok_iff.mpr hfree] at h
  cases hplace : d.labels.place d.graph l d.stack with
  | error e =>
    rw [hplace] at h
    cases h
  | ok placed =>
    obtain ⟨resume, labels⟩ := placed
    rw [hplace] at h
    cases h
    exact ⟨hlive.records, fun _ => hfree⟩

theorem beginTry_live {r : Region} (h : beginTry b = .ok r b') :
    b.draft.constrained = none ∧ (b.draft.Live → b'.draft.Live) := by
  have hfree := unqualified_of_check h
  refine ⟨hfree, fun hlive => ?_⟩
  obtain ⟨d, w⟩ := b
  rw [beginTry_run, Draft.checkUnqualified_ok_iff.mpr hfree] at h
  cases hbegin : d.regions.beginTry d.labels.fresh with
  | error fault =>
    rw [hbegin] at h
    cases h
  | ok opened =>
    obtain ⟨region, regions⟩ := opened
    rw [hbegin] at h
    cases h
    exact ⟨hlive.records, fun _ => hfree⟩

/-- The exit from a block is emitted only where it can be reached. -/
theorem beginHandler_live {t r : Region} {kind : RegionKind} (h : beginHandler t kind b = .ok r b') :
    b.draft.constrained = none ∧ (b.draft.Live → b'.draft.Live) := by
  have hfree := unqualified_of_check h
  refine ⟨hfree, fun hlive => ?_⟩
  rw [beginHandler_run] at h
  cases happroach : approachHandler t kind b with
  | error e b₁ =>
    rw [happroach] at h
    cases h
  | ok _ b₁ =>
    simp only [happroach] at h
    obtain ⟨d, w⟩ := b
    obtain ⟨d₁, w₁⟩ := b₁
    obtain ⟨hfree₁, -, -⟩ := approachHandler_ok happroach
    have hlive₁ : d₁.Live := by
      rw [approachHandler_run, Draft.checkUnqualified_ok_iff.mpr hfree] at happroach
      cases hentry : d.regions.checkHandler t kind with
      | error fault =>
        rw [hentry] at happroach
        cases happroach
      | ok entry =>
        simp only [hentry] at happroach
        split at happroach
        · rename_i hexit
          exact (pushBranch_sends _).live happroach hexit.2 hlive
        · cases happroach
          exact hlive
    rw [openHandler_run] at h
    cases hbegin : d₁.regions.beginHandler t kind with
    | error fault =>
      rw [hbegin] at h
      cases h
    | ok opened =>
      obtain ⟨region, regions⟩ := opened
      rw [hbegin] at h
      cases h
      exact ⟨hlive₁.records, fun _ => hfree₁⟩

/-- The exit from a handler is emitted only where it can be reached. -/
theorem endRegion_live {r : Region} (h : endRegion r b = .ok () b') :
    b.draft.constrained = none ∧ (b.draft.Live → b'.draft.Live) := by
  have hfree := unqualified_of_check h
  refine ⟨hfree, fun hlive => ?_⟩
  rw [endRegion_run] at h
  cases happroach : approachEnd r b with
  | error e b₁ =>
    rw [happroach] at h
    cases h
  | ok o b₁ =>
    simp only [happroach] at h
    obtain ⟨d, w⟩ := b
    obtain ⟨d₁, w₁⟩ := b₁
    obtain ⟨hfree₁, -, -, -, -⟩ := approachEnd_ok happroach
    have hlive₁ : d₁.Live := by
      rw [approachEnd_run, Draft.checkUnqualified_ok_iff.mpr hfree] at happroach
      cases hend : d.regions.checkEnd r with
      | error fault =>
        rw [hend] at happroach
        cases happroach
      | ok o' =>
        simp only [hend] at happroach
        split at happroach
        · rename_i hexit
          cases hpush : pushBranch o'.exit ⟨d, w⟩ with
          | error e b₂ =>
            rw [hpush] at happroach
            cases happroach
          | ok _ b₂ =>
            rw [hpush] at happroach
            cases happroach
            exact (pushBranch_sends _).live hpush hexit.2 hlive
        · cases happroach
          exact hlive
    rw [closeRegion_run] at h
    cases hclose : d₁.regions.endRegion r with
    | error fault =>
      rw [hclose] at h
      cases h
    | ok closed =>
      obtain ⟨o', regions⟩ := closed
      have hclosed : ({ d₁ with regions }.note (.regionEnded o.kind r)).Live :=
        ⟨hlive₁.records, fun _ => hfree₁⟩
      rw [hclose] at h
      simp only at h
      cases hsink : CodeSink.endRegion r w₁ with
      | error e w' => cases hsink
      | ok _ w' =>
        rw [hsink] at h
        simp only at h
        split at h
        · exact (markLabel_live h).2 hclosed
        · cases h
          exact hclosed

end Builder

namespace Operation

variable {op : Operation} {a : Answer} {b b' : Builder Recording}

theorem program_ok {α : Type} {x : Build Recording α} {f : α → Answer}
    (h : (x >>= fun r => pure (f r) : Build Recording Answer) b = .ok a b') : ∃ r, x b = .ok r b' := by
  rw [Builder.bind_run] at h
  cases hx : x b with
  | error e b₁ =>
    rw [hx] at h
    cases h
  | ok r b₁ =>
    rw [hx] at h
    cases h
    exact ⟨r, rfl⟩

/-- What is declared only lengthens the lists of locals and labels. -/
def declares : Operation → Bool
  | .declareLocal _ | .defineLabel => true
  | _ => false

/-- An operation that neither emits nor declares is refused where a qualifier waits. -/
theorem placement_ok (hemits : op.emits = false) (hdeclares : op.declares = false)
    (h : op.answer b = .ok a b') :
    b.draft.constrained = none ∧ (b.draft.Live → b'.draft.Live) := by
  cases op with
  | markLabel l =>
    obtain ⟨r, hr⟩ := program_ok h
    exact Builder.markLabel_live hr
  | beginTry =>
    obtain ⟨r, hr⟩ := program_ok h
    exact Builder.beginTry_live hr
  | beginHandler t kind =>
    obtain ⟨r, hr⟩ := program_ok h
    exact Builder.beginHandler_live hr
  | endRegion r =>
    obtain ⟨u, hu⟩ := program_ok h
    exact Builder.endRegion_live hu
  | declareLocal t => cases hdeclares
  | defineLabel => cases hdeclares
  | _ => cases hemits

end Operation

/-! ## § A session and the same without dead code -/

/-- **`Shadows`** — the second builder is the first one without the records of dead code, and no qualifier
waits in dead code. -/
structure Builder.Shadows (b b' : Builder Recording) : Prop where
  same : b'.draft = { b.draft with
    records := b'.draft.records, journal := b'.draft.journal, constrained := b'.draft.constrained }
  records : b'.draft.records.toList = b.draft.liveRecords
  constrained : b'.draft.constrained = if b.draft.stack.isReachable then b.draft.constrained else none

namespace Builder

/-- The builder with nothing behind it. -/
def bare (b : Builder Recording) : Builder Recording := ⟨{ b.draft with records := #[], journal := [] }, ⟨#[]⟩⟩

/-- What lies behind the builder. -/
def past (b : Builder Recording) : Past := ⟨b.draft.records, b.draft.journal, b.sink.events⟩

theorem withPast_bare (b : Builder Recording) : b.bare.withPast b.past = b := by
  obtain ⟨d, ⟨events⟩⟩ := b
  show Builder.mk { d with records := d.records ++ #[] } (Recording.mk (events ++ #[])) = ⟨d, ⟨events⟩⟩
  rw [Array.append_empty, Array.append_empty]

namespace Shadows

variable {op : Operation} {a : Answer} {b b' b₁ : Builder Recording}

theorem sight (h : Shadows b b') : b'.draft.sight = b.draft.sight := by
  rw [h.same]
  rfl

/-- A declaration looks at neither the records nor the qualifier. -/
theorem declared (h : Shadows b b') (hdeclares : op.declares = true) (hok : op.answer b = .ok a b₁) :
    ∃ b₁', op.answer b' = .ok a b₁' ∧ Shadows b₁ b₁' := by
  obtain ⟨d, w⟩ := b
  obtain ⟨d', w'⟩ := b'
  obtain ⟨hsame, hrecords, hconstrained⟩ := h
  simp only at hsame hrecords hconstrained
  generalize d'.records = records, d'.journal = journal, d'.constrained = constrained at *
  subst hsame
  cases op with
  | declareLocal t =>
    have hrun (d : Draft) (w : Recording) (hlimit : d.locals.size < localLimit) :
        (Operation.declareLocal t).answer ⟨d, w⟩ =
          .ok (.slot ⟨UInt16.ofNat d.locals.size⟩) ⟨{ d with locals := d.locals.push t }, w⟩ := by
      show (Builder.declareLocal t >>= fun slot => pure (Answer.slot slot) : Build Recording Answer) ⟨d, w⟩ = _
      rw [bind_run, declareLocal_run, if_pos hlimit]
      rfl
    have hlimit : d.locals.size < localLimit := by
      by_contra hover
      obtain ⟨slot, hslot⟩ := Operation.program_ok hok
      rw [declareLocal_run, if_neg hover] at hslot
      cases hslot
    rw [hrun d w hlimit] at hok
    cases hok
    exact ⟨_, hrun _ w' hlimit, rfl, hrecords, hconstrained⟩
  | defineLabel =>
    cases hok
    exact ⟨_, rfl, rfl, hrecords, hconstrained⟩
  | _ => cases hdeclares

/-- **`kept`** — an operation outside of dead code has the same answer on both sides. -/
theorem kept (h : Shadows b b') (hlive : op.emits = false ∨ b.draft.stack.isReachable = true)
    (hok : op.answer b = .ok a b₁) : ∃ b₁', op.answer b' = .ok a b₁' ∧ Shadows b₁ b₁' := by
  by_cases hdeclares : op.declares = true
  · exact h.declared hdeclares hok
  · rw [Bool.not_eq_true] at hdeclares
    -- The qualifiers agree: in dead code an operation that was not refused had none waiting.
    have hconstrained : b'.draft.constrained = b.draft.constrained := by
      rw [h.constrained]
      cases hreachable : b.draft.stack.isReachable with
      | true => rfl
      | false =>
        have hemits : op.emits = false := hlive.resolve_right (by simp [hreachable])
        exact (Operation.placement_ok hemits hdeclares hok).1.symm
    have hbare : b'.bare = b.bare := by
      show Builder.mk _ _ = Builder.mk _ _
      rw [h.same, hconstrained]
    have hrun := op.answer_forgetful b.past b.bare
    have hrun' := op.answer_forgetful b'.past b'.bare
    rw [withPast_bare] at hrun hrun'
    rw [hbare] at hrun'
    rw [hok] at hrun
    cases hcore : op.answer b.bare with
    | error e c =>
      rw [hcore] at hrun
      cases hrun
    | ok a' c =>
      rw [hcore] at hrun hrun'
      cases hrun
      have hbareLive : b.bare.draft.Live := by
        refine ⟨fun r hr => ?_, fun hdead => ?_⟩
        · cases hr
          contradiction
        · show b.draft.constrained = none
          have hdead' : b.draft.stack.isReachable = false := hdead
          rw [← hconstrained, h.constrained, hdead']
          rfl
      have hliveAfter : c.draft.Live := by
        cases hemits : op.emits with
        | true =>
          have hreachable := hlive.resolve_left (by simp [hemits])
          exact (Operation.emission_ok hemits hcore).1 hreachable hbareLive
        | false => exact (Operation.placement_ok hemits hdeclares hcore).2 hbareLive
      refine ⟨_, hrun', rfl, ?_, ?_⟩
      · show (b'.draft.records ++ c.draft.records).toList =
          (b.draft.records ++ c.draft.records).toList.filter fun r => r.stackBefore.isReachable
        rw [Array.toList_append, Array.toList_append, List.filter_append, h.records, Draft.liveRecords]
        congr 1
        exact (List.filter_eq_self.mpr fun r hr => hliveAfter.records r (Array.mem_toList_iff.mp hr)).symm
      · show c.draft.constrained = if c.draft.stack.isReachable then c.draft.constrained else none
        cases hreachable : c.draft.stack.isReachable with
        | true => rfl
        | false => exact hliveAfter.constrained hreachable

/-- **`dropped`** — emission in dead code changes nothing that has to be followed. -/
theorem dropped (h : Shadows b b') (hemits : op.emits = true) (hdead : b.draft.stack.isReachable = false)
    (hok : op.answer b = .ok a b₁) : Shadows b₁ b' := by
  have hstack : b.draft.stack = .unreachable := by
    cases hstack : b.draft.stack with
    | unreachable => rfl
    | reachable slots =>
      rw [hstack] at hdead
      cases hdead
  have hinert := (Operation.emission_ok hemits hok).2 hstack
  refine ⟨?_, h.records.trans hinert.records.symm, ?_⟩
  · rw [hinert.same]
    exact h.same
  · rw [h.constrained, hinert.stack, hdead]
    rfl

/-- What is finished with dead code is finished without it. -/
theorem finish (h : Shadows b b') {code : FinishedCode Recording} (hfinish : b.finish = .ok code) :
    ∃ code', b'.finish = .ok code' ∧ code'.locals = code.locals ∧ code'.maxStack = code.maxStack ∧
      code'.records.toList = code.records.toList.filter fun r => r.stackBefore.isReachable := by
  have hfree := unqualified_of_finish hfinish
  obtain ⟨⟨⟩, hcheck, -⟩ := Except.bind_eq_ok_iff.mp hfinish
  obtain ⟨-, hdead, -, rfl⟩ := finish_ok hfinish
  have hconstrained : b'.draft.constrained = b.draft.constrained := by
    rw [h.constrained, hdead, hfree]
    rfl
  have hcheck' : checkFinished b'.draft = .ok () := by
    rw [h.same, hconstrained]
    exact hcheck
  have hfinish' : b'.finish = .ok ⟨b'.sink, b'.draft.records, b'.draft.maxStack, b'.draft.locals⟩ := by
    rw [Builder.finish, hcheck']
    rfl
  refine ⟨_, hfinish', ?_, ?_, h.records⟩
  · show b'.draft.locals = b.draft.locals
    rw [h.same]
  · show b'.draft.maxStack = b.draft.maxStack
    rw [h.same]

end Shadows

end Builder

namespace Session

variable {s s' : Session Recording}

/-- A call leaves the builder that its answer leaves. -/
theorem builder_call_of_ok {op : Operation} {a : Answer} {b : Builder Recording}
    (h : op.answer s.builder = .ok a b) : (s.call op).builder = b := by
  rw [builder_call, op.reached_perform, Build.reached, h]

/-- **`shadows_run`** — a session and the same without its dead code show the same to their callers. -/
theorem shadows_run (h : s.builder.Shadows s'.builder) {ops : List Operation}
    (hok : ∀ m ∈ s.moments ops, m.succeeded = true) :
    let kept := (s.moments ops).filter fun m => !m.isDead
    s'.moments (kept.map Moment.op) = kept ∧
      (s.run ops).builder.Shadows (s'.run (kept.map Moment.op)).builder := by
  induction ops generalizing s s' with
  | nil => exact ⟨rfl, h⟩
  | cons op rest ih =>
    obtain ⟨hfirst, hrest⟩ := List.forall_mem_cons.mp hok
    cases hanswer : op.answer s.builder with
    | error e b =>
      have hreply : op.reply s.builder = .error e := by rw [Operation.reply, hanswer]
      rw [Moment.succeeded, hreply] at hfirst
      cases hfirst
    | ok a b =>
      have hcall := builder_call_of_ok hanswer
      intro kept
      cases hemission : op.emits && !s.builder.draft.stack.isReachable with
      | true =>
        -- The operation is not made in the shorter session.
        rw [Bool.and_eq_true, Bool.not_eq_true'] at hemission
        have hkept : kept = (moments (s.call op) rest).filter fun m => !m.isDead :=
          List.filter_cons_of_neg (by simp [Moment.isDead, Draft.sight, hemission.1, hemission.2])
        have hnext : (s.call op).builder.Shadows s'.builder := by
          rw [hcall]
          exact h.dropped hemission.1 hemission.2 hanswer
        rw [hkept]
        exact ih hnext hrest
      | false =>
        have hlive : op.emits = false ∨ s.builder.draft.stack.isReachable = true := by
          cases hemits : op.emits with
          | false => exact .inl rfl
          | true =>
            rw [hemits, Bool.true_and, Bool.not_eq_false'] at hemission
            exact .inr hemission
        obtain ⟨b', hanswer', hnext⟩ := h.kept hlive hanswer
        have hcall' := builder_call_of_ok hanswer'
        rw [← hcall, ← hcall'] at hnext
        have hmoment : (⟨op, s.builder.draft.sight, op.reply s.builder, (s.call op).builder.draft.sight⟩ : Moment) =
            ⟨op, s'.builder.draft.sight, op.reply s'.builder, (s'.call op).builder.draft.sight⟩ := by
          rw [h.sight, hnext.sight, Operation.reply, Operation.reply, hanswer, hanswer']
        have hkept : kept = ⟨op, s'.builder.draft.sight, op.reply s'.builder, (s'.call op).builder.draft.sight⟩ ::
            (moments (s.call op) rest).filter fun m => !m.isDead := by
          rw [← hmoment]
          exact List.filter_cons_of_pos (by simp [Moment.isDead, Draft.sight, hemission])
        obtain ⟨hmoments, hshadows⟩ := ih hnext hrest
        rw [hkept]
        refine ⟨?_, hshadows⟩
        rw [List.map_cons, moments, hmoments]

/-- **`deadCode_inert`** — a session that succeeds does so without its dead code: every operation that is left
has the same answer and is made in the same sight, and the body has the same locals, the same depth and the
records of live code. -/
theorem deadCode_inert {g : TypeGraph} {system : SystemTypes} {method : MethodId} {ops : List Operation}
    {code : FinishedCode Recording}
    (hok : ∀ m ∈ (start g system method Recording.empty).moments ops, m.succeeded = true)
    (hfinish : ((start g system method Recording.empty).run ops).builder.finish = .ok code) :
    let s := start g system method Recording.empty
    let kept := (s.moments ops).filter fun m => !m.isDead
    let shorter := kept.map Moment.op
    s.moments shorter = kept ∧ (∀ m ∈ s.moments shorter, m.succeeded = true) ∧
    ∃ code', (s.run shorter).builder.finish = .ok code' ∧ code'.locals = code.locals ∧
      code'.maxStack = code.maxStack ∧
      code'.records.toList = code.records.toList.filter fun r => r.stackBefore.isReachable := by
  intro s kept shorter
  have hstart : s.builder.Shadows s.builder := by
    obtain ⟨g', receiver, hdraft, -⟩ := Draft.start_eq g system method
    have hbuilder : s.builder.draft = _ := hdraft
    refine ⟨rfl, ?_, ?_⟩
    · rw [Draft.liveRecords, hbuilder]
      rfl
    · rw [hbuilder]
      rfl
  obtain ⟨hmoments, hshadows⟩ := shadows_run hstart hok
  have hsame : s.moments shorter = kept := hmoments
  refine ⟨hsame, fun m hm => ?_, hshadows.finish hfinish⟩
  rw [hsame] at hm
  exact hok m (List.mem_of_mem_filter hm)

end Session

namespace Sample

/-- Behind a jump there are a qualified call, a constant that nothing takes and a jump back; a label that the
first jump goes to brings the code back to life. -/
def jumpOver : List Operation :=
  [.defineLabel, .instruction (.ldcI4 7), .instruction .pop, .branch (.br ⟨0⟩),
    .instruction (.constrained system.object), .defineLabel, .instruction (.callvirt method),
    .constLong 5, .branch (.br ⟨0⟩), .markLabel ⟨0⟩, .beginTry,
    .beginHandler ⟨0⟩ .finallyHandler, .endRegion ⟨1⟩, .endRegion ⟨0⟩, .branch .ret]

/-- What is left of it. -/
def jumpOverLive : List Operation :=
  [.defineLabel, .instruction (.ldcI4 7), .instruction .pop, .branch (.br ⟨0⟩), .defineLabel, .markLabel ⟨0⟩,
    .beginTry, .beginHandler ⟨0⟩ .finallyHandler, .endRegion ⟨1⟩, .endRegion ⟨0⟩, .branch .ret]

/-- Five records of the longer session are of dead code. -/
theorem inert_jumpOver : ∃ code code',
    ((Session.start graph system method Recording.empty).run jumpOver).builder.finish = .ok code ∧
    ((Session.start graph system method Recording.empty).run jumpOverLive).builder.finish = .ok code' ∧
    code.records.size = 11 ∧
    code'.records.toList = code.records.toList.filter fun r => r.stackBefore.isReachable := by
  have hsize : ((Session.start graph system method Recording.empty).run jumpOver).builder.finish.toOption.map
      (fun code => code.records.size) = some 11 := by
    decide +kernel
  have hkept : (((Session.start graph system method Recording.empty).moments jumpOver).filter
      fun m => !m.isDead).map Moment.op = jumpOverLive := by
    decide +kernel
  have hok : ∀ m ∈ (Session.start graph system method Recording.empty).moments jumpOver,
      m.succeeded = true := by
    decide +kernel
  cases hfinish : ((Session.start graph system method Recording.empty).run jumpOver).builder.finish with
  | error e =>
    rw [hfinish] at hsize
    cases hsize
  | ok code =>
    rw [hfinish] at hsize
    obtain ⟨-, -, code', hcode', -, -, hrecords⟩ := Session.deadCode_inert hok hfinish
    rw [hkept] at hcode'
    exact ⟨code, code', rfl, hcode', Option.some.inj hsize, hrecords⟩

end Sample

end ManagedCode
