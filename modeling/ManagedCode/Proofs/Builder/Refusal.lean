/-
# ManagedCode.Proofs.Builder.Refusal — what is refused leaves no trace.

Emitting an instruction or a branch, placing a label, opening a handler and declaring a local variable check
everything before they change anything, and the sink is called in between: once it has been called nothing
may go wrong any more.  For a branch that is so because an edge that was accepted stays acceptable while the
other edges with the same stack are recorded; for a handler because leaving the protected block does not
change the regions.
-/
import ManagedCode.Proofs.Builder.Books
import ManagedCode.Proofs.Stack.Compatibility

namespace ManagedCode

open Body (Writer)

/-! ## § Edges are recorded without refusal -/

/-- An edge that was accepted is accepted again, wherever else the same stack has been recorded since. -/
theorem LabelTable.checkEdge_recordEdge {g : TypeGraph} {t : LabelTable} {l : Label}
    {incoming : AbstractStack} (h : t.checkEdge g l incoming = .ok ()) (l' : Label) :
    (t.recordEdge l' incoming).checkEdge g l incoming = .ok () := by
  obtain ⟨state, hstate, hfits⟩ := checkEdge_ok_iff.mp h
  rw [checkEdge_ok_iff, state?_recordEdge]
  by_cases heq : l = l'
  · subst heq
    rw [if_pos rfl, hstate]
    refine ⟨state.meet incoming, rfl, fun found expected hfound hexpected => ?_⟩
    subst hfound
    cases hrecord : state.record? with
    | some expected' =>
      rw [record?_meet hrecord] at hexpected
      exact hfits found expected rfl hexpected
    | none =>
      -- What has just been recorded is the stack itself.
      have hself : (state.meet (.reachable found)).record? = some found := by
        rw [LabelState.record?_meet_eq, hrecord]
        rfl
      cases hself.symm.trans hexpected
      exact AbstractStack.slotsCompatible_refl g found
  · rw [if_neg heq]
    exact ⟨state, hstate, hfits⟩

namespace Builder

variable {σ : Type} [CodeSink σ]

/-- Records the edges into labels one by one.  Every edge is checked again, and could be refused. -/
def reconcileEdges (delivered : AbstractStack) : List Label → Build σ Unit
  | [] => pure ()
  | l :: rest => do
    let _ ← check fun d => d.labels.reconcile d.graph l delivered
    update fun d => d.receiveEdge delivered l
    reconcileEdges delivered rest

/-- Emits a branch, and accounts for its edges one after the other when the sink has it. -/
def pushBranchEdgewise (branch : Branch Label) : Build σ Unit := do
  let jump ← check (·.checkBranch branch)
  forward (CodeSink.emitBranch branch)
  update fun d => d.note (.emitted ⟨.branch branch, d.stack⟩)
  reconcileEdges jump.delivered branch.targets
  update fun d => (d.record (.branch branch)).withStack jump.next

omit [CodeSink σ] in
theorem reconcileEdges_run {delivered : AbstractStack} {targets : List Label} {d : Draft}
    (h : ∀ l ∈ targets, d.labels.checkEdge d.graph l delivered = .ok ()) (s : σ) :
    reconcileEdges delivered targets ⟨d, s⟩ =
      .ok () ⟨targets.foldl (Draft.receiveEdge delivered) d, s⟩ := by
  induction targets generalizing d with
  | nil => rfl
  | cons target rest ih =>
    rw [List.forall_mem_cons] at h
    have hreconcile : d.labels.reconcile d.graph target delivered =
        .ok (d.labels.recordEdge target delivered) := by
      rw [LabelTable.reconcile, h.1]
      rfl
    obtain ⟨late, hreceive, -, -⟩ := Draft.foldl_receiveEdge delivered [target] d
    have hnext : ∀ l ∈ rest, (d.receiveEdge delivered target).labels.checkEdge
        (d.receiveEdge delivered target).graph l delivered = .ok () := by
      intro l hl
      rw [List.foldl_cons, List.foldl_nil] at hreceive
      rw [hreceive]
      exact LabelTable.checkEdge_recordEdge (h.2 l hl) target
    simp only [reconcileEdges, bind_run, check_run, hreconcile, update_run]
    exact ih hnext

/-- **`pushBranch_eq_edgewise`** — no edge is refused once the branch has been emitted. -/
theorem pushBranch_eq_edgewise (branch : Branch Label) :
    (pushBranch branch : Build σ Unit) = pushBranchEdgewise branch := by
  funext ⟨d, s⟩
  rw [pushBranch_run]
  simp only [pushBranchEdgewise, bind_run, check_run]
  cases hcheck : d.checkBranch branch with
  | error e => rfl
  | ok jump =>
    obtain ⟨-, -, -, hedges⟩ := Draft.checkBranch_ok hcheck
    simp only [forward_run]
    cases CodeSink.emitBranch branch s with
    | error e s' => rfl
    | ok _ s' =>
      simp only [update_run]
      rw [reconcileEdges_run (d := d.note (.emitted ⟨.branch branch, d.stack⟩)) hedges]
      rfl

end Builder

/-! ## § Refusals over a transcript -/

/-- Nothing has changed but the graph, which may have types that it lacked, and what there is to report. -/
def Builder.Unchanged {σ : Type} (b b' : Builder σ) : Prop :=
  b' = { b with draft := { b.draft with graph := b'.draft.graph, journal := b'.draft.journal } }

namespace Builder

variable {d : Draft} {t : Transcript} {e : EmitError} {b' : Builder Transcript}

theorem declareLocal_refused {type : TypeId} (h : declareLocal type ⟨d, t⟩ = .error e b') :
    b' = ⟨d, t⟩ := by
  rw [declareLocal_run] at h
  split at h
  · cases h
  · cases h
    rfl

/-- Reporting a fault changes nothing but the journal. -/
theorem reportFault_eq (insn : Instruction) (fault : VerifierFault) (d : Draft) :
    ∃ journal, reportFault insn fault d = { d with journal } := by
  rw [reportFault]
  cases JournalEntry.ofFault? insn fault <;> exact ⟨_, rfl⟩

theorem pushInstruction_refused {insn : Instruction} (h : pushInstruction insn ⟨d, t⟩ = .error e b') :
    Unchanged ⟨d, t⟩ b' := by
  rw [pushInstruction_run, Draft.addResultTypes_eq] at h
  split at h
  · cases h
    rfl
  · split at h
    · rename_i after hstep
      rw [emitVerified_run] at h
      cases h
    · rename_i fault hstep
      cases h
      obtain ⟨journal, hjournal⟩ := reportFault_eq insn fault _
      rw [Unchanged, hjournal]

theorem pushBranch_refused {branch : Branch Label} (h : pushBranch branch ⟨d, t⟩ = .error e b') :
    b' = ⟨d, t⟩ := by
  rw [pushBranch_run] at h
  cases hcheck : d.checkBranch branch with
  | error e' =>
    rw [hcheck] at h
    cases h
    rfl
  | ok jump =>
    rw [hcheck] at h
    cases h

theorem markLabel_refused {l : Label} (h : markLabel l ⟨d, t⟩ = .error e b') : b' = ⟨d, t⟩ := by
  rw [markLabel_run] at h
  cases hcheck : d.checkUnqualified (.placement l) with
  | error e' =>
    rw [hcheck] at h
    cases h
    rfl
  | ok =>
    rw [hcheck] at h
    cases hplace : d.labels.place d.graph l d.stack with
    | error e' =>
      simp only [hplace] at h
      cases h
      rfl
    | ok placed =>
      simp only [hplace] at h
      cases h

/-- The handler itself is opened as it was checked: leaving the block does not change the regions. -/
theorem beginHandler_refused {tryRegion : Region} {kind : RegionKind}
    (h : beginHandler tryRegion kind ⟨d, t⟩ = .error e b') : b' = ⟨d, t⟩ := by
  rw [beginHandler_run] at h
  cases happroach : approachHandler tryRegion kind ⟨d, t⟩ with
  | error e' b =>
    rw [happroach] at h
    cases h
    rw [approachHandler_run] at happroach
    split at happroach
    · cases happroach
      rfl
    · split at happroach
      · cases happroach
        rfl
      · split at happroach
        · exact pushBranch_refused happroach
        · cases happroach
  | ok _ b =>
    obtain ⟨-, hregions, -⟩ := approachHandler_ok happroach
    have hentry : ∃ entry, d.regions.checkHandler tryRegion kind = .ok entry := by
      rw [approachHandler_run] at happroach
      cases hcheck : d.regions.checkHandler tryRegion kind with
      | ok entry => exact ⟨entry, rfl⟩
      | error fault =>
        rw [hcheck] at happroach
        split at happroach <;> cases happroach
    obtain ⟨entry, hentry⟩ := hentry
    obtain ⟨⟨region, regions⟩, hopened⟩ := RegionTracker.beginHandler_of_check hentry
    obtain ⟨d', t'⟩ := b
    have hregions' : d'.regions = d.regions := hregions
    rw [happroach] at h
    simp only [openHandler_run, hregions', hopened] at h
    cases h

end Builder

/-- The operation checks everything before it changes anything. -/
def Operation.Atomic : Operation → Prop
  | .declareLocal _ | .markLabel _ | .instruction _ | .branch _ | .beginHandler _ _ => True
  | _ => False

/-- A refusal leaves the builder as it was; only an instruction may have added to the graph and the journal. -/
theorem Operation.refused_over_transcript {op : Operation} (hop : op.Atomic) {b b' : Builder Transcript}
    {e : EmitError} (h : op.answer b = .error e b') :
    b.Unchanged b' ∧ ((∀ insn, op ≠ .instruction insn) → b' = b) := by
  have herror {α : Type} {x : Build Transcript α} {f : α → Answer}
      (hx : (x >>= fun a => pure (f a)) b = .error e b') : x b = .error e b' := by
    rw [Builder.bind_run] at hx
    cases hresult : x b with
    | ok a b₁ =>
      rw [hresult] at hx
      cases hx
    | error e₁ b₁ =>
      rw [hresult] at hx
      cases hx
      rfl
  have hsame (heq : b' = b) : b.Unchanged b' ∧ ((∀ insn, op ≠ .instruction insn) → b' = b) := by
    subst heq
    exact ⟨rfl, fun _ => rfl⟩
  obtain ⟨d, t⟩ := b
  cases op with
  | declareLocal type => exact hsame (Builder.declareLocal_refused (herror h))
  | markLabel l => exact hsame (Builder.markLabel_refused (herror h))
  | instruction insn =>
    exact ⟨Builder.pushInstruction_refused (herror h), fun hother => absurd rfl (hother insn)⟩
  | branch branch => exact hsame (Builder.pushBranch_refused (herror h))
  | beginHandler tryRegion kind => exact hsame (Builder.beginHandler_refused (herror h))
  | _ => exact hop.elim

/-! ## § Refusals over any sink -/

section Transfer

variable {σ : Type} [CodeSink σ] {origin : σ}

/-- Where the calls are the same, so is the sink. -/
theorem Operation.refused_of_transcript {op : Operation} (hop : op.Atomic) {d : Draft} {s : σ}
    {t : Transcript} (htaken : Takes origin t.calls s)
    (hall : ∃ s', Takes origin (op.answer.reached ⟨d, t⟩).sink.calls s') {b' : Builder σ} {e : EmitError}
    (h : op.answer ⟨d, s⟩ = .error e b') :
    Builder.Unchanged ⟨d, s⟩ b' ∧ ((∀ insn, op ≠ .instruction insn) → b' = ⟨d, s⟩) := by
  have hsame := (op.answer_echoes origin).agrees d s t htaken hall
  rw [h] at hsame
  cases hresult : op.answer (⟨d, t⟩ : Builder Transcript) with
  | ok a b =>
    rw [hresult] at hsame
    exact hsame.elim
  | error e' b =>
    rw [hresult] at hsame
    obtain ⟨d', s'⟩ := b'
    obtain ⟨d₁, t₁⟩ := b
    obtain ⟨-, rfl, htaken'⟩ := hsame
    obtain ⟨hunchanged, hexact⟩ := op.refused_over_transcript hop hresult
    cases congrArg Builder.sink hunchanged
    cases htaken.unique htaken'
    refine ⟨?_, fun hother => ?_⟩
    · rw [Builder.Unchanged]
      congr 1
      exact congrArg Builder.draft hunchanged
    · congr 1
      exact congrArg Builder.draft (hexact hother)

/-- **`Reachable`** — builders that callers come to by any operations, refused ones included, with any handles.
The type graph is shared, so others may change it in between. -/
inductive Builder.Reachable (origin : σ) : Builder σ → Prop
  | start (g : TypeGraph) (system : SystemTypes) (method : MethodId) :
    Reachable origin (.start g system method origin)
  | call {b : Builder σ} (op : Operation) : Reachable origin b → Reachable origin (op.answer.reached b)
  | regraph {d : Draft} {s : σ} (g : TypeGraph) : Reachable origin ⟨d, s⟩ →
    Reachable origin ⟨{ d with graph := g }, s⟩

theorem Session.reachable_run {s : Session σ} (h : Builder.Reachable origin s.builder) (ops : List Operation) :
    Builder.Reachable origin (s.run ops).builder := by
  induction ops generalizing s with
  | nil => exact h
  | cons op rest ih =>
    refine ih ?_
    rw [builder_call, op.reached_perform]
    exact .call op h

/-- What the calls of reachable builders do to a sink that takes them. -/
theorem Builder.Reachable.transcribed (inv : Builder Transcript → σ → Prop)
    (htaken : ∀ {b s}, inv b s → Takes origin b.sink.calls s)
    (hstart : ∀ g system method, inv (.start g system method .empty) origin)
    (hcall : ∀ {b s} (op : Operation), inv b s → ∃ s', inv (op.answer.reached b) s')
    (hregraph : ∀ {d t s} g, inv ⟨d, t⟩ s → inv ⟨{ d with graph := g }, t⟩ s) {b : Builder σ}
    (h : Reachable origin b) : ∃ t, inv ⟨b.draft, t⟩ b.sink := by
  induction h with
  | start g system method => exact ⟨.empty, hstart g system method⟩
  | @call b op _ ih =>
    obtain ⟨t, ht⟩ := ih
    obtain ⟨s', hs'⟩ := hcall op ht
    have hsame := (op.answer_echoes origin).agrees b.draft b.sink t (htaken ht) ⟨s', htaken hs'⟩
    obtain ⟨hdraft, htaken'⟩ := hsame.reached
    refine ⟨(op.answer.reached ⟨b.draft, t⟩).sink, ?_⟩
    rw [hdraft, htaken'.unique (htaken hs')]
    exact hs'
  | regraph g _ ih =>
    obtain ⟨t, ht⟩ := ih
    exact ⟨t, hregraph g ht⟩

end Transfer

/-- The writer takes the calls of a whole operation. -/
theorem Accepted.operation {b : Builder Transcript} {w : Writer} (h : Accepted b w) (op : Operation) :
    ∃ w', Accepted (op.answer.reached b) w' := by
  rw [← op.reached_perform]
  have hsteps := op.steps b
  generalize op.perform.reached b = b' at hsteps
  induction hsteps with
  | refl => exact ⟨w, h⟩
  | tail _ hlast ih =>
    obtain ⟨w', hw'⟩ := ih
    exact hw'.step hlast

theorem Builder.Reachable.accepted {b : Builder Writer} (h : Reachable Writer.empty b) :
    ∃ t, Accepted ⟨b.draft, t⟩ b.sink := by
  refine h.transcribed Accepted Accepted.taken (fun g system method => ?_) (fun op hb => hb.operation op)
    fun g hb => ⟨hb.taken, hb.laid, hb.books⟩
  obtain ⟨w, hw⟩ := Session.accepted_run g system method []
  cases (takes_nil.mp hw.taken)
  exact hw

theorem Builder.Reachable.recorded {b : Builder Recording} (h : Reachable Recording.empty b) :
    ∃ t : Transcript, Takes Recording.empty t.calls b.sink :=
  h.transcribed (fun b s => Takes Recording.empty b.sink.calls s) id
    (fun _ _ _ => takes_nil.mpr rfl) (fun _ _ => Recording.takes _ _) fun _ hb => hb

/-- **`refused_unchanged`** — a refused instruction, branch, label, handler or local variable leaves all but
the graph and the journal of a builder unchanged, and all of it unless it is an instruction.  So it is because
edges are not refused once a branch has been emitted. -/
theorem Builder.refused_unchanged {op : Operation} (hop : op.Atomic) :
    (∀ b : Builder Recording, Reachable Recording.empty b → ∀ e b', op.answer b = .error e b' →
      b.Unchanged b' ∧ ((∀ insn, op ≠ .instruction insn) → b' = b)) ∧
    (∀ b : Builder Writer, Reachable Writer.empty b → ∀ e b', op.answer b = .error e b' →
      b.Unchanged b' ∧ ((∀ insn, op ≠ .instruction insn) → b' = b)) ∧
    ∀ (σ : Type) [CodeSink σ] (branch : Branch Label),
      (pushBranch branch : Build σ Unit) = pushBranchEdgewise branch := by
  refine ⟨fun b hb e b' h => ?_, fun b hb e b' h => ?_, fun σ _ branch => pushBranch_eq_edgewise branch⟩
  · obtain ⟨t, htaken⟩ := hb.recorded
    exact op.refused_of_transcript hop htaken (Recording.takes _ _) h
  · obtain ⟨t, ht⟩ := hb.accepted
    obtain ⟨w', hw'⟩ := ht.operation op
    exact op.refused_of_transcript hop ht.taken ⟨w', hw'.taken⟩ h

namespace Sample

/-- A point where one label expects an empty stack, and the switch would deliver an integer. -/
def mismatch : Builder Writer :=
  ((Session.start graph system method Writer.empty).run
    [.defineLabel, .defineLabel, .instruction (.ldcI4 0), .branch (.brtrue ⟨1⟩), .instruction (.ldcI4 0),
      .instruction (.ldcI4 0)]).builder

/-- The first target of the switch does not learn of the stack that the second one refuses. -/
theorem refused_switch : ∃ e b', Operation.answer (.branch (.switch [⟨0⟩, ⟨1⟩])) mismatch = .error e b' ∧
    b' = mismatch := by
  have hrefused :
      (Operation.answer (.branch (.switch [⟨0⟩, ⟨1⟩])) : Build Writer Answer).succeeds mismatch = false := by
    decide +kernel
  rw [Build.succeeds] at hrefused
  cases hanswer : Operation.answer (.branch (.switch [⟨0⟩, ⟨1⟩])) mismatch with
  | ok a b =>
    rw [hanswer] at hrefused
    cases hrefused
  | error e b' =>
    have hreachable : Builder.Reachable Writer.empty mismatch :=
      Session.reachable_run (.start graph system method) _
    have hatomic : Operation.Atomic (.branch (.switch [⟨0⟩, ⟨1⟩])) := trivial
    have hunchanged := (Builder.refused_unchanged hatomic).2.1 mismatch hreachable e b' hanswer
    exact ⟨e, b', rfl, hunchanged.2 (by simp)⟩

end Sample

end ManagedCode
