/-
# ManagedCode.Proofs.Builder.Points — the points at which labels stand.

A point of a body is a number of records: a label stands before the record that is made next.  The journal
tells where that was.  A label that the table takes for placed stands somewhere, unless the sink has refused
to mark it; and a sink refuses nothing that reaches it from the table if it only refuses labels it has
marked before (`MarksOnce`), as both the recording and the writer do.
-/
import ManagedCode.Proofs.Body.Writer
import ManagedCode.Proofs.Builder.Steps

namespace ManagedCode

/-! ## § Points -/

namespace JournalEntry

/-- The record that the entry reports. -/
def emitted? : JournalEntry → Option InstructionRecord
  | .emitted r => some r
  | _ => none

/-- The label whose place the entry reports. -/
def placed? : JournalEntry → Option Label
  | .labelPlaced l _ => some l
  | _ => none

/-- The entry is about something else than records and places. -/
def IsRemark (entry : JournalEntry) : Prop := entry.emitted? = none ∧ entry.placed? = none

/-- The number of records that had been made when the label was placed. -/
def position? (l : Label) : List JournalEntry → Option Nat
  | [] => none
  | entry :: older =>
    if entry.placed? = some l then some (older.filterMap emitted?).length else position? l older

theorem filterMap_emitted?_append {news : List JournalEntry} (h : ∀ entry ∈ news, entry.IsRemark)
    (journal : List JournalEntry) : (news ++ journal).filterMap emitted? = journal.filterMap emitted? := by
  rw [List.filterMap_append, List.filterMap_eq_nil_iff.mpr fun entry hentry => (h entry hentry).1,
    List.nil_append]

/-- Entries about other things do not move labels. -/
theorem position?_append {l : Label} {news : List JournalEntry} (h : ∀ entry ∈ news, entry.IsRemark)
    (journal : List JournalEntry) : position? l (news ++ journal) = position? l journal := by
  induction news with
  | nil => rfl
  | cons entry rest ih =>
    obtain ⟨hentry, hrest⟩ := List.forall_mem_cons.mp h
    rw [List.cons_append, position?, hentry.2, if_neg (by simp), ih hrest]

theorem position?_isSome {l : Label} {resume : AbstractStack} {journal : List JournalEntry}
    (h : .labelPlaced l resume ∈ journal) : ∃ k, position? l journal = some k := by
  induction journal with
  | nil => cases h
  | cons entry older ih =>
    rw [position?]
    by_cases hentry : entry.placed? = some l
    · exact ⟨_, if_pos hentry⟩
    · rw [if_neg hentry]
      refine ih ((List.mem_cons.mp h).resolve_left ?_)
      rintro rfl
      exact hentry rfl

end JournalEntry

/-- The point that a label stands at. -/
def Draft.position? (d : Draft) (l : Label) : Option Nat := JournalEntry.position? l d.journal

/-! ## § Sinks that mark each label once -/

variable {σ : Type}

/-- The state that a call leaves, whether it succeeds or not. -/
def SinkCall.left (call : SinkCall σ) (w : σ) : σ :=
  match call w with
  | .ok _ w' => w'
  | .error _ w' => w'

theorem SinkCall.left_of_ok {call : SinkCall σ} {w w' : σ} (h : call w = .ok () w') : call.left w = w' := by
  rw [left, h]

theorem SinkCall.left_of_error {call : SinkCall σ} {w w' : σ} {e : EmitError} (h : call w = .error e w') :
    call.left w = w' := by
  rw [left, h]

variable [CodeSink σ]

/-- **`MarksOnce`** — the sink refuses only labels that it has marked, and marks only those it is asked to. -/
structure CodeSink.MarksOnce (marked : σ → Label → Prop) : Prop where
  refused : ∀ {l : Label} {w w' : σ} {e : EmitError}, CodeSink.markLabel l w = .error e w' → marked w l
  markLabel : ∀ {l l' : Label} {w w' : σ}, CodeSink.markLabel l w = .ok () w' → marked w' l' →
    l' = l ∨ marked w l'
  emit : ∀ {g : TypeGraph} {insn : Instruction} {w : σ} {l : Label},
    marked ((CodeSink.emit g insn).left w) l → marked w l
  emitBranch : ∀ {b : Branch Label} {w : σ} {l : Label},
    marked ((CodeSink.emitBranch b).left w) l → marked w l
  beginRegion : ∀ {g : TypeGraph} {region : Region} {kind : RegionKind} {tryRegion : Option Region} {w : σ}
    {l : Label}, marked ((CodeSink.beginRegion g region kind tryRegion).left w) l → marked w l
  endRegion : ∀ {region : Region} {w : σ} {l : Label},
    marked ((CodeSink.endRegion region).left w) l → marked w l

/-- The recording refuses nothing. -/
theorem Recording.marksOnce : CodeSink.MarksOnce (σ := Recording) fun _ _ => False where
  refused h := by cases h
  markLabel _ h := h.elim
  emit h := h
  emitBranch h := h
  beginRegion h := h
  endRegion h := h

namespace Body.Writer

theorem labels_beginHandler (g : TypeGraph) (region : Region) (kind : RegionKind) (tryRegion : Region)
    (w : Writer) : (SinkCall.left (beginHandler g region kind tryRegion) w).labels = w.labels := by
  have hend (block : ProtectedBlock) : (w.endBlock tryRegion block).labels = w.labels := by
    rw [endBlock]
    cases block.stop <;> rfl
  rw [SinkCall.left, beginHandler.eq_1]
  cases w.blocks.find? tryRegion with
  | none => rfl
  | some block =>
    cases kind with
    | tryBlock => exact hend block
    | filterBlock => exact hend block
    | faultHandler => exact hend block
    | finallyHandler => exact hend block
    | catchHandler exception =>
      cases hfilter : (w.endBlock tryRegion block).pendingFilters.find? tryRegion with
      | none =>
        simp only [hfilter]
        exact hend block
      | some filterOffset =>
        simp only [hfilter]
        exact hend block

theorem labels_endHandler (region : Region) (handler : OpenHandler) (w : Writer) :
    (SinkCall.left (endHandler region handler) w).labels = w.labels := by
  rw [SinkCall.left, endHandler.eq_1]
  by_cases hfilter : handler.isFilterBlock = true
  · simp only [if_pos hfilter]
  · simp only [if_neg hfilter]
    cases w.blocks.find? handler.tryRegion with
    | none => rfl
    | some block =>
      obtain ⟨start, stop⟩ := block
      cases stop <;> rfl

theorem labels_endRegion (region : Region) (w : Writer) :
    (SinkCall.left (endRegion region) w).labels = w.labels := by
  have hcall := endRegion.eq_1 region w
  cases hblock : w.blocks.find? region with
  | some block =>
    rw [hblock] at hcall
    rw [SinkCall.left_of_ok hcall]
  | none =>
    cases hhandler : w.handlers.find? region with
    | none =>
      rw [hblock, hhandler] at hcall
      rw [SinkCall.left_of_error hcall]
    | some handler =>
      rw [hblock, hhandler] at hcall
      have hsame : SinkCall.left (endRegion region) w = SinkCall.left (endHandler region handler) w := by
        rw [SinkCall.left, SinkCall.left, hcall]
      rw [hsame, labels_endHandler]

/-- The writer refuses a label that has an offset. -/
theorem marksOnce : CodeSink.MarksOnce fun (w : Writer) l => (w.labels.find? l).isSome = true where
  refused {l w w' e} h := by
    cases hfound : w.labels.find? l with
    | some place => rfl
    | none =>
      have hok := markLabel_eq hfound
      cases hok.symm.trans h
  markLabel {l l' w w'} h hmarked := by
    have hcall := markLabel.eq_1 l w
    cases hfound : w.labels.find? l with
    | some place =>
      rw [hfound] at hcall
      cases hcall.symm.trans h
    | none =>
      rw [hfound] at hcall
      cases hcall.symm.trans h
      rw [Registry.find?_insert] at hmarked
      split at hmarked
      · exact .inl ‹_›
      · exact .inr hmarked
  emit h := h
  emitBranch h := h
  beginRegion {g region kind tryRegion w l} h := by
    cases tryRegion with
    | none => exact h
    | some tryRegion => rwa [← labels_beginHandler g region kind tryRegion w]
  endRegion {region w l} h := by rwa [← labels_endRegion region w]

end Body.Writer

/-! ## § Every label that has a place stands at a point -/

/-- **`Located`** — the sink has marked no more labels than the table takes for placed, and the journal tells
where all of these stand. -/
structure Located (marked : σ → Label → Prop) (b : Builder σ) : Prop where
  marked : ∀ l, marked b.sink l → b.draft.labels.isPlaced l = true
  located : ∀ l, b.draft.labels.isPlaced l = true → ∃ resume, .labelPlaced l resume ∈ b.draft.journal

namespace Located

variable {marked : σ → Label → Prop} {b b' : Builder σ}

omit [CodeSink σ] in
/-- Where no label is placed and none is marked, nothing is new. -/
theorem keep (h : Located marked b) (hjournal : b.draft.journal <:+ b'.draft.journal)
    (hmarked : ∀ l, marked b'.sink l → marked b.sink l)
    (hplaced : ∀ l, b'.draft.labels.isPlaced l = b.draft.labels.isPlaced l) : Located marked b' where
  marked l hl := by
    rw [hplaced]
    exact h.marked l (hmarked l hl)
  located l hl := by
    rw [hplaced] at hl
    obtain ⟨resume, hmem⟩ := h.located l hl
    exact ⟨resume, hjournal.subset hmem⟩

/-- A label that gets its place is marked, and the journal tells. -/
theorem place (hmarks : CodeSink.MarksOnce marked) (h : Located marked b)
    (hjournal : b.draft.journal <:+ b'.draft.journal) {l : Label} {resume : AbstractStack} {w : σ}
    (hmarked : ∀ l, marked w l → marked b.sink l) (hmark : CodeSink.markLabel l w = .ok () b'.sink)
    (hplace : b.draft.labels.place b.draft.graph l b.draft.stack = .ok (resume, b'.draft.labels))
    (hnoted : .labelPlaced l resume ∈ b'.draft.journal) : Located marked b' where
  marked l' hl' := by
    rw [LabelTable.isPlaced_place hplace, Bool.or_eq_true, decide_eq_true_iff]
    rcases hmarks.markLabel hmark hl' with heq | hbefore
    · exact .inl heq
    · exact .inr (h.marked l' (hmarked l' hbefore))
  located l' hl' := by
    rw [LabelTable.isPlaced_place hplace, Bool.or_eq_true, decide_eq_true_iff] at hl'
    rcases hl' with rfl | hbefore
    · exact ⟨resume, hnoted⟩
    · obtain ⟨resume', hmem⟩ := h.located l' hbefore
      exact ⟨resume', hjournal.subset hmem⟩

/-- The sink does not refuse a label that the table places. -/
theorem not_refused (hmarks : CodeSink.MarksOnce marked) (h : Located marked b) {l : Label} {w w' : σ}
    {e : EmitError} {placed : AbstractStack × LabelTable} (hmarked : ∀ l, marked w l → marked b.sink l)
    (hplace : b.draft.labels.place b.draft.graph l b.draft.stack = .ok placed)
    (hmark : CodeSink.markLabel l w = .error e w') : False := by
  have hplaced := h.marked l (hmarked l (hmarks.refused hmark))
  rw [LabelTable.not_isPlaced_of_place hplace] at hplaced
  cases hplaced

/-- **`Located.step`** — no step places a label that stands nowhere. -/
theorem step (hmarks : CodeSink.MarksOnce marked) {op : Operation} (hstep : Step op b b')
    (h : Located marked b) : Located marked b' := by
  have hjournal := hstep.journal_suffix
  cases hstep with
  | declareLocal => exact h.keep hjournal (fun _ => id) fun _ => rfl
  | defineLabel => exact h.keep hjournal (fun _ => id) (LabelTable.isPlaced_define _)
  | addResultTypes =>
    refine h.keep hjournal (fun _ => id) fun l => ?_
    rw [Draft.addResultTypes_eq]
  | report => exact h.keep hjournal (fun _ => id) fun _ => rfl
  | instruction hinsn hvirtual hok hsink =>
    refine h.keep hjournal (fun l hl => hmarks.emit (SinkCall.left_of_ok hsink ▸ hl)) fun l => ?_
    rw [Draft.addResultTypes_eq]
    rfl
  | instructionRefused hsink =>
    exact h.keep hjournal (fun l hl => hmarks.emit (SinkCall.left_of_error hsink ▸ hl)) fun _ => rfl
  | @branch d w w' b j hb hj hsink =>
    refine h.keep hjournal (fun l hl => hmarks.emitBranch (SinkCall.left_of_ok hsink ▸ hl)) fun l => ?_
    obtain ⟨late, hcommit, -, -⟩ := Draft.commitBranch_eq b j (d.note (.emitted ⟨.branch b, d.stack⟩))
    rw [hcommit]
    exact LabelTable.isPlaced_recordEdges _ _ _ l
  | branchRefused hsink =>
    exact h.keep hjournal (fun l hl => hmarks.emitBranch (SinkCall.left_of_error hsink ▸ hl)) fun _ => rfl
  | place hop hfree hplace hsink =>
    exact h.place hmarks hjournal (fun _ => id) hsink hplace List.mem_cons_self
  | placeRefused hop hplace hsink => exact (h.not_refused hmarks (fun _ => id) hplace hsink).elim
  | beginTry hfree hbegin hsink =>
    exact h.keep hjournal (fun l hl => hmarks.beginRegion (SinkCall.left_of_ok hsink ▸ hl))
      (LabelTable.isPlaced_define _)
  | beginTryRefused hbegin hsink =>
    exact h.keep hjournal (fun l hl => hmarks.beginRegion (SinkCall.left_of_error hsink ▸ hl))
      (LabelTable.isPlaced_define _)
  | beginHandler hop hfree hbetween hbegin hsink =>
    exact h.keep hjournal (fun l hl => hmarks.beginRegion (SinkCall.left_of_ok hsink ▸ hl)) fun _ => rfl
  | beginHandlerRefused hbetween hbegin hsink =>
    exact h.keep hjournal (fun l hl => hmarks.beginRegion (SinkCall.left_of_error hsink ▸ hl)) fun _ => rfl
  | endHandler hfree hkind hdead hend hsink =>
    exact h.keep hjournal (fun l hl => hmarks.endRegion (SinkCall.left_of_ok hsink ▸ hl)) fun _ => rfl
  | endTry hfree hblock hend hsink hplace hmark =>
    exact h.place hmarks hjournal (fun l hl => hmarks.endRegion (SinkCall.left_of_ok hsink ▸ hl)) hmark hplace
      List.mem_cons_self
  | endTryUnplaced hblock hend hsink hplace =>
    exact h.keep hjournal (fun l hl => hmarks.endRegion (SinkCall.left_of_ok hsink ▸ hl)) fun _ => rfl
  | endTryRefused hblock hend hsink hplace hmark =>
    exact (h.not_refused hmarks (fun l hl => hmarks.endRegion (SinkCall.left_of_ok hsink ▸ hl)) hplace
      hmark).elim
  | endRefused hdead hend hsink =>
    exact h.keep hjournal (fun l hl => hmarks.endRegion (SinkCall.left_of_error hsink ▸ hl)) fun _ => rfl

end Located

/-- **`located_run`** — over a sink that marks labels once and has marked none yet, every label that has been
placed stands at a point. -/
theorem Session.located_run {marked : σ → Label → Prop} (hmarks : CodeSink.MarksOnce marked)
    {g : TypeGraph} {system : SystemTypes} {method : MethodId} {sink : σ} (hnone : ∀ l, ¬ marked sink l)
    (ops : List Operation) {l : Label}
    (hl : ((start g system method sink).run ops).builder.draft.labels.isPlaced l = true) :
    ∃ k, ((start g system method sink).run ops).builder.draft.position? l = some k := by
  have hrun : Located marked ((start g system method sink).run ops).builder := by
    refine run_induction (fun s => Located marked s.builder) ?_ ?_ (admits_true _ ops)
    · exact fun s op _ h => call_induction _ (fun b b' hstep _ => Located.step hmarks hstep) h
    · refine ⟨fun l hl => absurd hl (hnone l), fun l hl => ?_⟩
      have hunknown : (Draft.start g system method).labels.isPlaced l = false := by
        rw [Draft.labels_start]
        rfl
      cases hunknown.symm.trans hl
  obtain ⟨resume, hmem⟩ := hrun.located l hl
  exact JournalEntry.position?_isSome hmem

end ManagedCode
