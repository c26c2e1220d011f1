/-
# ManagedCode.Proofs.Builder.Boundary — what can be reached at the boundaries of a protected block.

An exit is emitted where a protected block ends in its first handler and where a handler ends.  Between two
handlers, and after the last, none is: there the code is dead, unless a label that was placed there has
brought it back.  Three things are shown about every session that only places labels it was given:

  * after a handler the code is dead;
  * before a handler, and after a construct with anything on the stack, it can be reached exactly if it
    could be reached between the handlers before the operation;
  * that never happens if no label is placed between handlers.

The label right after a construct is in nobody's hands before the construct is closed.  Only exits jump to
it, so it is bound to the empty stack at most (`Reserved`).
-/
import ManagedCode.Proofs.Builder.Steps

namespace ManagedCode

open RegionTracker (Nested endLabels)

/-! ## § The ends of the open constructs are reserved -/

/-- The label has no place, and what has jumped to it had an empty stack. -/
def LabelTable.Awaits (t : LabelTable) (l : Label) : Prop :=
  t.state? l = some .pending ∨ t.state? l = some (.bound [])

theorem LabelTable.Awaits.knows {t : LabelTable} {l : Label} (h : t.Awaits l) : t.Knows l := by
  rcases h with hpending | hbound
  · exact ⟨_, hpending⟩
  · exact ⟨_, hbound⟩

/-- An edge into it changes nothing that matters about such a label, if it brings nothing. -/
theorem LabelTable.Awaits.edgesInto {t : LabelTable} {l : Label} (h : t.Awaits l)
    {delivered : AbstractStack} {targets : List Label}
    (hempty : l ∈ targets → delivered = .unreachable ∨ delivered = .empty) :
    (Draft.edgesInto delivered targets t).Awaits l := by
  rw [Awaits, Draft.state?_edgesInto]
  by_cases htarget : l ∈ targets
  · rw [if_pos htarget]
    rcases hempty htarget with rfl | rfl <;> rcases h with hstate | hstate
    · exact .inl (by rw [hstate]; rfl)
    · exact .inr (by rw [hstate]; rfl)
    · exact .inr (by rw [hstate]; rfl)
    · exact .inr (by rw [hstate]; rfl)
  · rw [if_neg htarget]
    exact h

/-- **`Reserved`** — the labels right after the open constructs are not in the hands of the caller, wait
for their places, and are different from each other. -/
structure Reserved (labels : LabelTable) (regions : RegionTracker) (handles : List Label) : Prop where
  nested : Nested regions.opened
  held : ∀ l ∈ handles, labels.Knows l
  awaited : ∀ l ∈ endLabels regions.opened, labels.Awaits l
  apart : ∀ l ∈ endLabels regions.opened, l ∉ handles
  distinct : (endLabels regions.opened).Nodup

namespace Reserved

variable {labels labels' : LabelTable} {regions regions' : RegionTracker} {handles : List Label}

/-- Labels may change as long as known ones stay known and reserved ones wait; constructs may close. -/
theorem shrink (h : Reserved labels regions handles) (hn : Nested regions'.opened)
    (hends : (endLabels regions'.opened).Sublist (endLabels regions.opened))
    (hknows : ∀ l, labels.Knows l → labels'.Knows l)
    (hawaits : ∀ l ∈ endLabels regions'.opened, labels.Awaits l → labels'.Awaits l) :
    Reserved labels' regions' handles where
  nested := hn
  held := fun l hl => hknows l (h.held l hl)
  awaited := fun l hl => hawaits l hl (h.awaited l (hends.subset hl))
  apart := fun l hl => h.apart l (hends.subset hl)
  distinct := h.distinct.sublist hends

theorem define (h : Reserved labels regions handles) : Reserved labels.define.2 regions handles := by
  refine h.shrink h.nested (List.Sublist.refl _) (fun l hl => hl.define) ?_
  intro l _ hl
  rw [LabelTable.Awaits, LabelTable.state?_define_of_knows hl.knows]
  exact hl

/-- The label of a new construct is a fresh one. -/
theorem beginTry (h : Reserved labels regions handles) {region : Region}
    (hbegin : regions.beginTry labels.fresh = .ok (region, regions')) :
    Reserved labels.define.2 regions' handles := by
  have hn := h.nested.beginTry hbegin
  obtain ⟨-, -, rfl⟩ := RegionTracker.beginTry_ok hbegin
  have hends := RegionTracker.endLabels_block
    (o := ⟨⟨regions.next⟩, .tryBlock, ⟨regions.next⟩, labels.fresh, 0, false, false⟩)
    rfl regions.opened
  have hdefine := h.define
  refine ⟨hn, hdefine.held, ?_, ?_, ?_⟩
  · -- The label of the new construct waits because it is new.
    rw [hends]
    intro l hl
    rcases List.mem_cons.mp hl with rfl | hl
    · exact .inl (by rw [LabelTable.state?_define, if_pos rfl])
    · exact hdefine.awaited l hl
  · rw [hends]
    intro l hl
    rcases List.mem_cons.mp hl with rfl | hl
    · exact fun hheld => labels.not_knows_fresh (h.held _ hheld)
    · exact h.apart l hl
  · rw [hends, List.nodup_cons]
    exact ⟨fun hmem => labels.not_knows_fresh (h.awaited _ hmem).knows, h.distinct⟩

/-- A label that the caller holds, or that is reserved no longer, may be placed. -/
theorem place (h : Reserved labels regions handles) {g : TypeGraph} {l : Label}
    (hl : l ∉ endLabels regions.opened) {fallThrough resume : AbstractStack}
    (hplace : labels.place g l fallThrough = .ok (resume, labels')) :
    Reserved labels' regions handles := by
  refine h.shrink h.nested (List.Sublist.refl _) (fun l' hl' => hl'.place hplace) ?_
  intro l' hmem hl'
  have hne : l' ≠ l := fun heq => hl (heq ▸ hmem)
  rw [LabelTable.Awaits, (LabelTable.place_ok hplace).2, if_neg hne]
  exact hl'

theorem beginHandler (h : Reserved labels regions handles) {tryRegion region : Region}
    {kind : RegionKind} (hbegin : regions.beginHandler tryRegion kind = .ok (region, regions')) :
    Reserved labels regions' handles := by
  refine h.shrink (h.nested.beginHandler hbegin) ?_ (fun _ => id) (fun _ _ => id)
  rw [RegionTracker.endLabels_beginHandler hbegin]

theorem endRegion (h : Reserved labels regions handles) {region : Region} {o : OpenRegion}
    (hend : regions.endRegion region = .ok (o, regions')) : Reserved labels regions' handles := by
  refine h.shrink (h.nested.endRegion hend) ?_ (fun _ => id) (fun _ _ => id)
  by_cases hblock : o.kind = .tryBlock
  · rw [RegionTracker.endLabels_endTry hend hblock]
    exact List.sublist_cons_self _ _
  · rw [RegionTracker.endLabels_endHandler hend hblock]

/-- Where a construct is closed its label is reserved no longer. -/
theorem not_mem_endTry (h : Reserved labels regions handles) {region : Region} {o : OpenRegion}
    (hend : regions.endRegion region = .ok (o, regions')) (hblock : o.kind = .tryBlock) :
    o.endLabel ∉ endLabels regions'.opened := by
  have hdistinct := h.distinct
  rw [RegionTracker.endLabels_endTry hend hblock] at hdistinct
  exact (List.nodup_cons.mp hdistinct).1

variable {σ : Type} [CodeSink σ] {op : Operation}

/-- A branch jumps to labels of the caller, or leaves the innermost region with an empty stack. -/
theorem branch {d : Draft} (h : Reserved d.labels d.regions handles) (howns : op.labels ⊆ handles)
    {b : Branch Label} (hb : op.Emits d b) {j : AbstractStack.Jump} (hj : d.checkBranch b = .ok j) :
    Reserved (Draft.edgesInto j.delivered b.targets d.labels) d.regions handles := by
  refine h.shrink h.nested (List.Sublist.refl _) (fun l hl => hl.recordEdges _ _) ?_
  intro l hmem hl
  refine hl.edgesInto fun htarget => ?_
  rcases hb with hchosen | ⟨o, -, rfl⟩
  · exact absurd (howns (Operation.targets_subset hchosen htarget)) (h.apart l hmem)
  · obtain ⟨-, -, hjump, -⟩ := Draft.checkBranch_ok hj
    refine AbstractStack.jump_leave ?_ hjump
    revert htarget
    rw [OpenRegion.exit]
    cases o.kind <;> simp [Branch.targets, Branch.isLeave]

/-- **`Reserved.step`** — no step takes a reserved label, or places one before its time. -/
theorem step {b b' : Builder σ} (hstep : Step op b b') (howns : op.labels ⊆ handles)
    (h : Reserved b.draft.labels b.draft.regions handles) :
    Reserved b'.draft.labels b'.draft.regions handles := by
  cases hstep with
  | declareLocal => exact h
  | defineLabel => exact h.define
  | addResultTypes =>
    rw [Draft.addResultTypes_eq]
    exact h
  | report => exact h
  | instruction =>
    rw [Draft.addResultTypes_eq]
    exact h
  | instructionRefused => exact h
  | @branch d w w' b j hb hj hsink =>
    obtain ⟨late, hcommit, -, -⟩ := Draft.commitBranch_eq b j (d.note (.emitted ⟨.branch b, d.stack⟩))
    rw [hcommit]
    exact h.branch howns hb hj
  | branchRefused => exact h
  | @place d w w' l resume labels hop hfree hplace hsink =>
    have hheld : l ∈ handles := howns (by rw [hop]; exact List.mem_singleton_self l)
    exact h.place (fun hmem => h.apart l hmem hheld) hplace
  | @placeRefused d w w' l resume labels e hop hplace hsink =>
    have hheld : l ∈ handles := howns (by rw [hop]; exact List.mem_singleton_self l)
    exact h.place (fun hmem => h.apart l hmem hheld) hplace
  | beginTry hfree hbegin => exact h.beginTry hbegin
  | beginTryRefused hbegin => exact h.beginTry hbegin
  | beginHandler hop hfree hbetween hbegin => exact h.beginHandler hbegin
  | beginHandlerRefused hbetween hbegin => exact h.beginHandler hbegin
  | endHandler hfree hkind hdead hend => exact h.endRegion hend
  | endTry hfree hblock hend hsink hplace =>
    exact (h.endRegion hend).place (h.not_mem_endTry hend hblock) hplace
  | endTryUnplaced hblock hend => exact h.endRegion hend
  | endTryRefused hblock hend hsink hplace =>
    exact (h.endRegion hend).place (h.not_mem_endTry hend hblock) hplace
  | endRefused hdead hend => exact h.endRegion hend

end Reserved

/-! ## § Between handlers the code is dead -/

/-- **`Settled`** — no code between the handlers of a protected block can be reached. -/
structure Settled (d : Draft) : Prop where
  nested : Nested d.regions.opened
  dead : d.regions.BetweenHandlers → d.stack = .unreachable

namespace Settled

variable {σ : Type} [CodeSink σ] {op : Operation}

theorem instruction {d : Draft} (h : Settled d) {insn : Instruction} {after : AbstractStack}
    {g : TypeGraph} {ctx : MethodContext} (hstep : d.stack.step g ctx insn = .ok after) :
    d.regions.BetweenHandlers → after = .unreachable := by
  intro hbetween
  rw [h.dead hbetween] at hstep
  cases hstep
  rfl

theorem branch {d : Draft} (h : Settled d) {b : Branch Label} {j : AbstractStack.Jump}
    (hj : d.checkBranch b = .ok j) : d.regions.BetweenHandlers → j.next = .unreachable := by
  intro hbetween
  obtain ⟨-, -, hjump, -⟩ := Draft.checkBranch_ok hj
  rw [h.dead hbetween] at hjump
  cases hjump
  rfl

/-- A construct that closes leaves the region around it, which has no handler yet; a handler leaves dead
code behind. -/
theorem endRegion {d : Draft} (h : Settled d) {region : Region} {o : OpenRegion}
    {regions : RegionTracker} (hend : d.regions.endRegion region = .ok (o, regions))
    {stack : AbstractStack} (hdead : o.kind ≠ .tryBlock → stack = .unreachable) :
    regions.BetweenHandlers → stack = .unreachable := by
  intro hbetween
  by_cases hblock : o.kind = .tryBlock
  · exact absurd hbetween (h.nested.not_betweenHandlers_endRegion hend hblock)
  · exact hdead hblock

/-- **`Settled.step`** — only a label that is placed between handlers could bring code there back. -/
theorem step {s : Session σ} (horderly : s.Orderly op) {b b' : Builder σ} (hstep : Step op b b')
    (hfirst : ∀ l ∈ op.placed?, b = s.builder) (h : Settled b.draft) : Settled b'.draft := by
  cases hstep with
  | declareLocal => exact ⟨h.nested, h.dead⟩
  | defineLabel => exact ⟨h.nested, h.dead⟩
  | addResultTypes =>
    rw [Draft.addResultTypes_eq]
    exact ⟨h.nested, h.dead⟩
  | report => exact ⟨h.nested, h.dead⟩
  | instruction hinsn hvirtual hok hsink =>
    rw [Draft.addResultTypes_eq]
    exact ⟨h.nested, h.instruction hok⟩
  | instructionRefused => exact h
  | @branch d w w' b j hb hj hsink =>
    obtain ⟨late, hcommit, -, -⟩ := Draft.commitBranch_eq b j (d.note (.emitted ⟨.branch b, d.stack⟩))
    rw [hcommit]
    exact ⟨h.nested, h.branch hj⟩
  | branchRefused => exact h
  | @place d w w' l resume labels hop hfree hplace hsink =>
    -- The step answers, which the operation may not do between handlers.
    refine ⟨h.nested, fun hbetween => ?_⟩
    have hl : l ∈ op.placed? := by rw [hop]; rfl
    have hrefused := horderly l hl (hfirst l hl ▸ hbetween)
    rw [← hfirst l hl, Builder.markLabel_succeeds hfree hplace hsink] at hrefused
    cases hrefused
  | placeRefused => exact ⟨h.nested, h.dead⟩
  | beginTry hfree hbegin =>
    exact ⟨h.nested.beginTry hbegin,
      fun hbetween => absurd hbetween (RegionTracker.not_betweenHandlers_beginTry hbegin)⟩
  | beginTryRefused hbegin =>
    exact ⟨h.nested.beginTry hbegin,
      fun hbetween => absurd hbetween (RegionTracker.not_betweenHandlers_beginTry hbegin)⟩
  | beginHandler hop hfree hbetween hbegin =>
    exact ⟨h.nested.beginHandler hbegin,
      fun hbetween => absurd hbetween (RegionTracker.not_betweenHandlers_beginHandler hbegin)⟩
  | beginHandlerRefused hbetween hbegin =>
    exact ⟨h.nested.beginHandler hbegin,
      fun hbetween => absurd hbetween (RegionTracker.not_betweenHandlers_beginHandler hbegin)⟩
  | endHandler hfree hkind hdead hend =>
    exact ⟨h.nested.endRegion hend, h.endRegion hend fun _ => hdead⟩
  | endTry hfree hblock hend =>
    exact ⟨h.nested.endRegion hend, h.endRegion hend fun hkind => absurd hblock hkind⟩
  | endTryUnplaced hblock hend =>
    exact ⟨h.nested.endRegion hend, h.endRegion hend fun hkind => absurd hblock hkind⟩
  | endTryRefused hblock hend =>
    exact ⟨h.nested.endRegion hend, h.endRegion hend fun hkind => absurd hblock hkind⟩
  | endRefused hdead hend => exact ⟨h.nested.endRegion hend, h.endRegion hend hdead⟩

end Settled

theorem Draft.settled_start (g : TypeGraph) (system : SystemTypes) (method : MethodId) :
    Settled (Draft.start g system method) := by
  constructor
  · rw [Draft.regions_start]
    exact .nil
  · rw [Draft.regions_start]
    rintro ⟨o, ho, -⟩
    cases ho

/-! ## § Sessions -/

namespace Session

variable {σ : Type} [CodeSink σ]

/-- A label that a session hands out is its own. -/
theorem reserved_call {s : Session σ} {op : Operation} (howns : s.Owns op)
    (h : Reserved s.builder.draft.labels s.builder.draft.regions s.handles) :
    Reserved (s.call op).builder.draft.labels (s.call op).builder.draft.regions (s.call op).handles := by
  by_cases hop : op = .defineLabel
  · subst hop
    rw [call_defineLabel]
    have hdefine := h.define
    refine ⟨hdefine.nested, ?_, hdefine.awaited, ?_, hdefine.distinct⟩
    · intro l hl
      rcases List.mem_cons.mp hl with rfl | hl
      · exact s.builder.draft.labels.knows_define_fresh
      · exact hdefine.held l hl
    · intro l hmem hl
      rcases List.mem_cons.mp hl with rfl | hl
      · exact s.builder.draft.labels.not_knows_fresh (h.awaited _ hmem).knows
      · exact h.apart l hmem hl
  · rw [handles_call s hop]
    exact call_induction (fun b => Reserved b.draft.labels b.draft.regions s.handles)
      (fun b b' hstep _ => Reserved.step hstep howns) h

theorem settled_call {s : Session σ} {op : Operation} (horderly : s.Orderly op)
    (h : Settled s.builder.draft) : Settled (s.call op).builder.draft :=
  call_induction (fun b => Settled b.draft) (fun _ _ => Settled.step horderly) h

variable {g : TypeGraph} {system : SystemTypes} {method : MethodId} {sink : σ}

theorem reserved_run {ops : List Operation} (howns : (start g system method sink).Admits Owns ops) :
    Reserved ((start g system method sink).run ops).builder.draft.labels
      ((start g system method sink).run ops).builder.draft.regions
      ((start g system method sink).run ops).handles := by
  refine run_induction (fun s => Reserved s.builder.draft.labels s.builder.draft.regions s.handles)
    (fun s op => reserved_call) ?_ howns
  show Reserved (Draft.start g system method).labels (Draft.start g system method).regions []
  rw [Draft.labels_start, Draft.regions_start]
  exact ⟨.nil, by simp, by simp [endLabels], by simp [endLabels], by simp [endLabels]⟩

theorem settled_run {ops : List Operation} (horderly : (start g system method sink).Admits Orderly ops) :
    Settled ((start g system method sink).run ops).builder.draft :=
  run_induction (fun s => Settled s.builder.draft) (fun _ _ => settled_call)
    (Draft.settled_start g system method) horderly

end Session

/-! ## § The boundaries -/

/-- Code between handlers can be reached: a label has brought it back. -/
def Draft.Revived (d : Draft) : Prop := d.regions.BetweenHandlers ∧ d.stack.isReachable = true

instance (d : Draft) : Decidable d.Revived := inferInstanceAs (Decidable (_ ∧ _))

theorem AbstractStack.isReachable_iff {s : AbstractStack} : s.isReachable = true ↔ s ≠ .unreachable := by
  cases s <;> simp [isReachable]

namespace Builder

variable {σ : Type} [CodeSink σ]

/-- **`beginHandler_boundary`** — the point before a handler is dead, unless it lies between handlers where
the code could be reached already. -/
theorem beginHandler_boundary {tryRegion region : Region} {kind : RegionKind} {b b' : Builder σ}
    (h : beginHandler tryRegion kind b = .ok region b') :
    ∃ before, approachHandler tryRegion kind b = .ok () before ∧
      openHandler tryRegion kind before = .ok region b' ∧
      (before.draft.stack = .unreachable ↔ ¬ b.draft.Revived) := by
  rw [beginHandler_run] at h
  cases hresult : approachHandler tryRegion kind b with
  | error e b₁ =>
    rw [hresult] at h
    cases h
  | ok _ before =>
    rw [hresult] at h
    refine ⟨before, rfl, h, ?_⟩
    obtain ⟨-, -, hreachable⟩ := approachHandler_ok hresult
    rw [Draft.Revived, ← hreachable, AbstractStack.isReachable_iff, not_not]

/-- Closing a region succeeds by placing the label after it, or with the stack that it ends with. -/
theorem closeRegion_ok {region : Region} {o : OpenRegion} {d : Draft} {w : σ} {b' : Builder σ}
    (h : closeRegion region o ⟨d, w⟩ = .ok () b') :
    (o.kind ≠ .tryBlock → b'.draft.stack = d.stack) ∧
      (o.kind = .tryBlock → ∃ labels, d.labels.place d.graph o.endLabel d.stack =
        .ok (b'.draft.stack, labels)) := by
  rw [closeRegion_run] at h
  cases hclose : d.regions.endRegion region with
  | error fault =>
    rw [hclose] at h
    cases h
  | ok closed =>
    obtain ⟨o', regions⟩ := closed
    rw [hclose] at h
    cases hsink : CodeSink.endRegion region w with
    | error e w' =>
      simp only [hsink] at h
      cases h
    | ok _ w' =>
      simp only [hsink] at h
      by_cases hblock : o.kind = .tryBlock
      · rw [if_pos hblock] at h
        obtain ⟨labels, hplace⟩ := markLabel_ok h
        exact ⟨absurd hblock, fun _ => ⟨labels, hplace⟩⟩
      · rw [if_neg hblock] at h
        cases h
        exact ⟨fun _ => rfl, fun hkind => absurd hkind hblock⟩

/-- **`endRegion_boundary`** — after a handler the code is dead; a construct is left with the stack that
it ends with, or with the empty stack that an exit has brought. -/
theorem endRegion_boundary {handles : List Label} {region : Region} {b b' : Builder σ}
    (hreserved : Reserved b.draft.labels b.draft.regions handles)
    (h : endRegion region b = .ok () b') :
    ∃ o ∈ b.draft.regions.innermost?,
      (o.kind ≠ .tryBlock → b'.draft.stack = .unreachable) ∧
      (o.kind = .tryBlock → (b'.draft.stack = .empty ∨ b'.draft.stack = .unreachable ↔
        b.draft.Revived → b.draft.stack = .empty)) := by
  rw [endRegion_run] at h
  cases hresult : approachEnd region b with
  | error e b₁ =>
    rw [hresult] at h
    cases h
  | ok o before =>
    rw [hresult] at h
    obtain ⟨-, hcheck, -, hdead, hsame⟩ := approachEnd_ok hresult
    obtain ⟨rest, hopened, -, hhas⟩ := RegionTracker.checkEnd_ok hcheck
    obtain ⟨hhandler, hblock⟩ := closeRegion_ok h
    refine ⟨o, RegionTracker.innermost?_of_opened hopened, ?_, ?_⟩
    · exact fun hkind => (hhandler hkind).trans (hdead hkind)
    · intro hkind
      have hbetween : b.draft.regions.BetweenHandlers :=
        (RegionTracker.betweenHandlers_iff hopened).mpr (hhas hkind)
      obtain ⟨labels, hplace⟩ := hblock hkind
      rw [hsame hkind] at hplace
      have hrevived : b.draft.Revived ↔ b.draft.stack ≠ .unreachable := by
        rw [Draft.Revived, AbstractStack.isReachable_iff]
        exact and_iff_right hbetween
      rw [hrevived]
      have hawaits : b.draft.labels.Awaits o.endLabel := by
        refine hreserved.awaited _ (hreserved.nested.endLabel_mem o ?_)
        rw [hopened]
        exact List.mem_cons_self
      -- A label that waits resumes with the stack before it, or with the empty stack that fits it.
      rcases (LabelTable.place_ok hplace).1 with ⟨-, hresume⟩ | ⟨slots, hbound, hresume, hfits⟩
      · rw [hresume]
        show b.draft.stack = .empty ∨ b.draft.stack = .unreachable ↔ _
        constructor
        · rintro (hempty | hunreachable) hne
          · exact hempty
          · exact absurd hunreachable hne
        · intro himp
          by_cases hunreachable : b.draft.stack = .unreachable
          · exact .inr hunreachable
          · exact .inl (himp hunreachable)
      · have hnil : slots = [] := by
          rcases hawaits with hpending | hbound'
          · cases hbound.symm.trans hpending
          · cases hbound.symm.trans hbound'
            rfl
        subst hnil
        rw [hresume]
        refine ⟨fun _ hne => ?_, fun _ => .inl rfl⟩
        cases hstack : b.draft.stack with
        | unreachable => exact absurd hstack hne
        | reachable found =>
          cases found with
          | nil => rfl
          | cons top rest => cases hfits _ hstack

end Builder

namespace Session

variable {σ : Type} [CodeSink σ] {g : TypeGraph} {system : SystemTypes} {method : MethodId} {sink : σ}

/-- **`boundaries`** — in every session that places its own labels only: before a handler, and after a
construct with something on the stack, the code can be reached exactly if it could be reached between
handlers; after a handler it is dead.  A session that places no label between handlers never gets there. -/
theorem boundaries {ops : List Operation} (howns : (start g system method sink).Admits Owns ops) :
    let b := ((start g system method sink).run ops).builder
    (∀ tryRegion kind region b', Builder.beginHandler tryRegion kind b = .ok region b' →
      ∃ before, Builder.approachHandler tryRegion kind b = .ok () before ∧
        Builder.openHandler tryRegion kind before = .ok region b' ∧
        (before.draft.stack = .unreachable ↔ ¬ b.draft.Revived)) ∧
    (∀ region b', Builder.endRegion region b = .ok () b' →
      ∃ o ∈ b.draft.regions.innermost?,
        (o.kind ≠ .tryBlock → b'.draft.stack = .unreachable) ∧
        (o.kind = .tryBlock → (b'.draft.stack = .empty ∨ b'.draft.stack = .unreachable ↔
          b.draft.Revived → b.draft.stack = .empty))) ∧
    ((start g system method sink).Admits Orderly ops → ¬ b.draft.Revived) := by
  intro b
  refine ⟨fun _ _ _ _ => Builder.beginHandler_boundary, ?_, ?_⟩
  · exact fun _ _ => Builder.endRegion_boundary (reserved_run howns)
  · rintro horderly ⟨hbetween, hreachable⟩
    exact AbstractStack.isReachable_iff.mp hreachable ((settled_run horderly).dead hbetween)

end Session

/-! ## § A label between handlers -/

namespace Sample

/-- A protected block with a finally handler: the block pushes a number and jumps to a label that is placed
after the handler. -/
def revival : List Operation :=
  [.beginTry, .defineLabel, .instruction (.ldcI4 1), .branch (.br ⟨1⟩), .beginHandler ⟨0⟩ .finallyHandler,
    .endRegion ⟨1⟩, .markLabel ⟨1⟩]

/-- The number is still on the stack after the whole construct. -/
theorem revival_leaves_number :
    (Session.start graph system method Recording.empty).Admits Session.Owns revival ∧
      let b := ((Session.start graph system method Recording.empty).run revival).builder
      (Builder.endRegion ⟨0⟩).succeeds b = true ∧
        ((Builder.endRegion ⟨0⟩).reached b).draft.stack = .reachable [.value system.int32] := by
  decide +kernel

theorem boundaries_revival :
    (Session.start graph system method Recording.empty).Admits Session.Owns revival ∧
      ¬ (Session.start graph system method Recording.empty).Admits Session.Orderly revival := by
  have howns : (Session.start graph system method Recording.empty).Admits Session.Owns revival := by
    decide +kernel
  refine ⟨howns, fun horderly => ?_⟩
  have hrevived :
      ((Session.start graph system method Recording.empty).run revival).builder.draft.Revived := by
    decide +kernel
  exact (Session.boundaries howns).2.2 horderly hrevived

end Sample

end ManagedCode
