/-
# ManagedCode.Proofs.Builder.Retry — what is left when a region neither opens nor closes.

Opening a protected block and closing a region change labels, regions and the sink one after the other.
Nearly every refusal comes before the first change, and then the caller can try again.  Two come later:

  * a block that may not open between handlers has used up a label by then;
  * a construct that an exit has left with the empty stack, and whose own end is reached with something on
    the stack, has been closed, and the sink has been told, before the label after it is refused.

Both are exact.  The second takes code between handlers that a label has brought back: elsewhere the label
after a construct fits, because no caller holds it before the construct is closed.
-/
import ManagedCode.Proofs.Builder.Boundary
import ManagedCode.Proofs.Builder.Refusal

namespace ManagedCode

/-! ## § Refusals over a recording -/

/-- The recording takes every call, so what is checked before it is changed is refused as over a transcript. -/
theorem Operation.refused_over_recording {op : Operation} (hop : op.Atomic) {b b' : Builder Recording}
    {e : EmitError} (h : op.answer b = .error e b') :
    b.Unchanged b' ∧ ((∀ insn, op ≠ .instruction insn) → b' = b) := by
  have htaken : Takes b.sink Transcript.empty.calls b.sink := takes_nil.mpr rfl
  exact op.refused_of_transcript hop htaken (Recording.takes _ _) h

/-- A branch that is refused, the exit from a handler among them, leaves the builder as it was. -/
theorem Builder.pushBranch_refused_recording {branch : Branch Label} {b b' : Builder Recording} {e : EmitError}
    (h : pushBranch branch b = .error e b') : b' = b := by
  have hanswer : (Operation.branch branch).answer b = .error e b' := by
    show (pushBranch branch >>= fun _ => pure Answer.done : Build Recording Answer) b = _
    rw [bind_run, h]
  have hatomic : (Operation.branch branch).Atomic := trivial
  exact (Operation.refused_over_recording hatomic hanswer).2 (by simp)

/-! ## § The checks that come late -/

/-- Nothing but a handler opens between handlers. -/
theorem RegionTracker.beginTry_betweenHandlers {t : RegionTracker} (h : t.BetweenHandlers) (endLabel : Label) :
    ∃ fault, t.beginTry endLabel = .error fault := by
  cases hopened : t.beginTry endLabel with
  | error fault => exact ⟨fault, rfl⟩
  | ok opened => exact absurd h (RegionTracker.beginTry_ok hopened).1

/-- The only reason why a block does not open. -/
theorem RegionTracker.betweenHandlers_of_beginTry {t : RegionTracker} {endLabel : Label} {fault : NestingFault}
    (h : t.beginTry endLabel = .error fault) : t.BetweenHandlers := by
  simp only [beginTry] at h
  split at h
  · rename_i o hfilter
    obtain ⟨ho, hhas⟩ := Option.filter_eq_some_iff.mp hfilter
    rw [Bool.and_eq_true, beq_iff_eq, bne_iff_ne] at hhas
    exact ⟨o, ho, hhas⟩
  · cases h

/-- A label that waits for its place takes every fall-through, unless an exit has left its construct empty and
the fall-through brings something. -/
theorem LabelTable.Awaits.place_refused_iff {g : TypeGraph} {t : LabelTable} {l : Label} (h : t.Awaits l)
    {fallThrough : AbstractStack} : (∃ e, t.place g l fallThrough = .error e) ↔
      t.state? l = some (.bound []) ∧ fallThrough.isReachable = true ∧ fallThrough ≠ .empty := by
  constructor
  · rintro ⟨e, hrefused⟩
    by_contra hfits
    suffices hplaced : ∃ placed, t.place g l fallThrough = .ok placed by
      obtain ⟨placed, hplaced⟩ := hplaced
      cases hrefused.symm.trans hplaced
    rcases h with hpending | hbound
    · exact ⟨(_, _), LabelTable.place_iff.mpr ⟨_, hpending, rfl, by simp [LabelState.record?], rfl, rfl⟩⟩
    · refine ⟨(_, _), LabelTable.place_iff.mpr ⟨_, hbound, rfl, ?_, rfl, rfl⟩⟩
      rintro first hfirst slots hslots
      cases hfirst
      -- Whatever can be reached here is empty.
      cases fallThrough with
      | unreachable => cases hslots
      | reachable found =>
        cases hslots
        have hempty : AbstractStack.reachable slots = .empty := by
          by_contra hne
          exact hfits ⟨hbound, rfl, hne⟩
        cases hempty
        rfl
  · rintro ⟨hbound, hreachable, hladen⟩
    cases hplace : t.place g l fallThrough with
    | error e => exact ⟨e, rfl⟩
    | ok placed =>
      obtain ⟨state, hstate, -, hfits, -, -⟩ := LabelTable.place_iff.mp hplace
      cases hbound.symm.trans hstate
      cases fallThrough with
      | unreachable => cases hreachable
      | reachable found =>
        cases found with
        | nil => exact absurd rfl hladen
        | cons top rest => cases hfits [] rfl (top :: rest) rfl

/-! ## § A block that does not open -/

namespace Builder

variable {σ : Type}

/-- The builder after a label that nobody is given. -/
def spendLabel (b : Builder σ) : Builder σ :=
  ⟨{ b.draft with labels := b.draft.labels.define.2 }, b.sink⟩

variable {b b' : Builder Recording} {e : EmitError}

/-- **`beginTry_refused`** — a block does not open if a qualifier waits, which leaves the builder as it was, or
between handlers, which uses up a label. -/
theorem beginTry_refused (h : beginTry b = .error e b') :
    (b.draft.constrained ≠ none ∧ b' = b) ∨
      (b.draft.constrained = none ∧ b.draft.regions.BetweenHandlers ∧ b' = b.spendLabel) := by
  obtain ⟨d, w⟩ := b
  rw [beginTry_run] at h
  cases hcheck : d.checkUnqualified .tryStart with
  | error e' =>
    rw [hcheck] at h
    cases h
    refine .inl ⟨fun hfree => ?_, rfl⟩
    cases hcheck.symm.trans (Draft.checkUnqualified_ok_iff.mpr hfree)
  | ok =>
    rw [hcheck] at h
    cases htry : d.regions.beginTry d.labels.fresh with
    | error fault =>
      simp only [htry] at h
      cases h
      have hbetween := RegionTracker.betweenHandlers_of_beginTry htry
      exact .inr ⟨Draft.checkUnqualified_ok_iff.mp hcheck, hbetween, rfl⟩
    | ok opened =>
      simp only [htry] at h
      cases h

theorem beginTry_betweenHandlers (hfree : b.draft.constrained = none)
    (hbetween : b.draft.regions.BetweenHandlers) : ∃ e, beginTry b = .error e b.spendLabel := by
  obtain ⟨d, w⟩ := b
  obtain ⟨fault, hfault⟩ := RegionTracker.beginTry_betweenHandlers hbetween d.labels.fresh
  have hcheck : d.checkUnqualified .tryStart = .ok () := Draft.checkUnqualified_ok_iff.mpr hfree
  refine ⟨.nesting fault, ?_⟩
  rw [beginTry_run, hcheck]
  simp only [hfault]
  rfl

end Builder

/-! ## § A construct that closes and is refused -/

/-- **`Overhangs`** — the construct can be closed and an exit has left it with the empty stack, but its own end
is reached with something on the stack. -/
structure Draft.Overhangs (d : Draft) (region : Region) : Prop where
  free : d.constrained = none
  reached : d.stack.isReachable = true
  laden : d.stack ≠ .empty
  closes : ∃ o, d.regions.checkEnd region = .ok o ∧ o.kind = .tryBlock ∧
    d.labels.state? o.endLabel = some (.bound [])

/-- Only code between handlers that a label has brought back overhangs. -/
theorem Draft.Overhangs.revived {d : Draft} {region : Region} (h : d.Overhangs region) : d.Revived := by
  obtain ⟨o, hend, hblock, -⟩ := h.closes
  obtain ⟨rest, hopened, -, hhas⟩ := RegionTracker.checkEnd_ok hend
  exact ⟨(RegionTracker.betweenHandlers_iff hopened).mpr (hhas hblock), h.reached⟩

namespace RegionTracker

/-- Everything that can be closed closes. -/
theorem endRegion_of_check {t : RegionTracker} {region : Region} {o : OpenRegion}
    (h : t.checkEnd region = .ok o) : ∃ t', t.endRegion region = .ok (o, t') := by
  rw [endRegion, h]
  exact ⟨_, rfl⟩

/-- Closing a block takes it off. -/
theorem endRegion_block {t t' : RegionTracker} {region : Region} {o : OpenRegion}
    (h : t.endRegion region = .ok (o, t')) (hblock : o.kind = .tryBlock) :
    t' = { t with opened := t.opened.tail } := by
  obtain ⟨o', ho', hrest⟩ := Except.bind_eq_ok_iff.mp h
  cases hrest
  rw [hblock]
  rfl

end RegionTracker

namespace Builder

/-- The builder after the innermost construct was closed without the label after it. -/
def severed (region : Region) (b : Builder Recording) : Builder Recording :=
  ⟨{ b.draft with regions := { b.draft.regions with opened := b.draft.regions.opened.tail } }.note
      (.regionEnded .tryBlock region), { events := b.sink.events.push (.endRegion region) }⟩

variable {b b' : Builder Recording} {e : EmitError} {region : Region}

/-- A block closes as soon as it may, whatever becomes of the label after it. -/
theorem closeRegion_block {o : OpenRegion} (hend : b.draft.regions.checkEnd region = .ok o)
    (hblock : o.kind = .tryBlock) : closeRegion region o b = markLabel o.endLabel (b.severed region) := by
  obtain ⟨d, w⟩ := b
  obtain ⟨regions, hclose⟩ := RegionTracker.endRegion_of_check hend
  have hregions := RegionTracker.endRegion_block hclose hblock
  have hclose' : d.regions.endRegion region = .ok (o, regions) := hclose
  rw [closeRegion_run, hclose']
  subst hregions
  have hsink : (CodeSink.endRegion region w : EStateM.Result EmitError Recording Unit) =
      .ok () { events := w.events.push (.endRegion region) } := rfl
  simp only [hsink]
  rw [if_pos hblock, severed, hblock]

/-- A handler that has been left closes. -/
theorem closeRegion_handler {o : OpenRegion} (hend : b.draft.regions.checkEnd region = .ok o)
    (hhandler : o.kind ≠ .tryBlock) : ∃ b', closeRegion region o b = .ok () b' := by
  obtain ⟨d, w⟩ := b
  obtain ⟨regions, hclose⟩ := RegionTracker.endRegion_of_check hend
  have hclose' : d.regions.endRegion region = .ok (o, regions) := hclose
  rw [closeRegion_run, hclose']
  simp only [if_neg hhandler]
  exact ⟨_, rfl⟩

/-- What is refused before the region closes leaves the builder as it was. -/
theorem approachEnd_refused (h : approachEnd region b = .error e b') : b' = b := by
  obtain ⟨d, w⟩ := b
  rw [approachEnd_run] at h
  split at h
  · cases h
    rfl
  · split at h
    · cases h
      rfl
    · split at h
      · split at h
        · cases h
        · rename_i hexit
          cases h
          exact pushBranch_refused_recording hexit
      · cases h

/-- A block needs no exit where it closes. -/
theorem approachEnd_block {o : OpenRegion} (hfree : b.draft.constrained = none)
    (hend : b.draft.regions.checkEnd region = .ok o) (hblock : o.kind = .tryBlock) :
    approachEnd region b = .ok o b := by
  obtain ⟨d, w⟩ := b
  have hcheck : d.checkUnqualified (.regionEnd region) = .ok () := Draft.checkUnqualified_ok_iff.mpr hfree
  have hend' : d.regions.checkEnd region = .ok o := hend
  rw [approachEnd_run, hcheck]
  simp only [hend']
  exact if_neg fun hexit => RegionKind.isHandler_iff.mp hexit.1 hblock

/-- The label after a construct is refused exactly if the construct overhangs. -/
theorem markLabel_severed {handles : List Label}
    (hreserved : Reserved b.draft.labels b.draft.regions handles) (hfree : b.draft.constrained = none)
    {o : OpenRegion} (hend : b.draft.regions.checkEnd region = .ok o) (hblock : o.kind = .tryBlock) :
    (b.draft.Overhangs region → ∃ e, markLabel o.endLabel (b.severed region) = .error e (b.severed region)) ∧
      (¬ b.draft.Overhangs region → ∃ b', markLabel o.endLabel (b.severed region) = .ok () b') := by
  obtain ⟨rest, hopened, -, -⟩ := RegionTracker.checkEnd_ok hend
  have hawaits : b.draft.labels.Awaits o.endLabel := by
    refine hreserved.awaited _ (hreserved.nested.endLabel_mem o ?_)
    rw [hopened]
    exact List.mem_cons_self
  have hrefused : (∃ e, b.draft.labels.place b.draft.graph o.endLabel b.draft.stack = .error e) ↔ _ :=
    hawaits.place_refused_iff
  have hcheck : (b.severed region).draft.checkUnqualified (.placement o.endLabel) = .ok () :=
    Draft.checkUnqualified_ok_iff.mpr hfree
  have hrun := markLabel_run o.endLabel (b.severed region).draft (b.severed region).sink
  rw [hcheck] at hrun
  constructor
  · intro hover
    obtain ⟨o', hend', -, hbound⟩ := hover.closes
    cases hend.symm.trans hend'
    obtain ⟨e, he⟩ := hrefused.mpr ⟨hbound, hover.reached, hover.laden⟩
    exact ⟨e, hrun.trans (by simp only [severed, Draft.note, he])⟩
  · intro hlevel
    cases hplace : b.draft.labels.place b.draft.graph o.endLabel b.draft.stack with
    | error e =>
      obtain ⟨hbound, hreached, hladen⟩ := hrefused.mp ⟨e, hplace⟩
      exact absurd ⟨hfree, hreached, hladen, o, hend, hblock, hbound⟩ hlevel
    | ok placed => exact ⟨_, hrun.trans (by simp only [severed, Draft.note, hplace]; rfl)⟩

/-- A block that may be closed is closed, and then its label is placed. -/
theorem endRegion_block {o : OpenRegion} (hfree : b.draft.constrained = none)
    (hend : b.draft.regions.checkEnd region = .ok o) (hblock : o.kind = .tryBlock) :
    endRegion region b = markLabel o.endLabel (b.severed region) := by
  rw [endRegion_run, approachEnd_block hfree hend hblock]
  exact closeRegion_block hend hblock

/-- **`endRegion_overhangs`** — a construct that overhangs is closed, and refused. -/
theorem endRegion_overhangs {handles : List Label}
    (hreserved : Reserved b.draft.labels b.draft.regions handles) (hover : b.draft.Overhangs region) :
    ∃ e, endRegion region b = .error e (b.severed region) := by
  obtain ⟨o, hend, hblock, -⟩ := hover.closes
  rw [endRegion_block hover.free hend hblock]
  exact (markLabel_severed hreserved hover.free hend hblock).1 hover

/-- **`endRegion_refused`** — any other region that is refused is as open as it was. -/
theorem endRegion_refused {handles : List Label}
    (hreserved : Reserved b.draft.labels b.draft.regions handles) (hlevel : ¬ b.draft.Overhangs region)
    (h : endRegion region b = .error e b') : b' = b := by
  rw [endRegion_run] at h
  cases happroach : approachEnd region b with
  | error e' b₁ =>
    rw [happroach] at h
    cases h
    exact approachEnd_refused happroach
  | ok o b₁ =>
    -- Once the region may be closed nothing is refused.
    rw [happroach] at h
    obtain ⟨hfree, hend, hregions, -, hsame⟩ := approachEnd_ok happroach
    by_cases hblock : o.kind = .tryBlock
    · have hb₁ : b₁ = b := hsame hblock
      subst hb₁
      obtain ⟨b₂, hb₂⟩ := (markLabel_severed hreserved hfree hend hblock).2 hlevel
      cases ((closeRegion_block hend hblock).trans hb₂).symm.trans h
    · obtain ⟨b₂, hb₂⟩ := closeRegion_handler (hregions ▸ hend) hblock
      cases hb₂.symm.trans h

end Builder

/-! ## § Sessions -/

namespace Session

variable {σ : Type} [CodeSink σ] {origin : σ}

/-- **`Owned`** — sessions that callers come to who name no label but those that they were given.  The type
graph is shared, so others may change it in between. -/
inductive Owned (origin : σ) : Session σ → Prop
  | start (g : TypeGraph) (system : SystemTypes) (method : MethodId) :
    Owned origin (.start g system method origin)
  | call {s : Session σ} {op : Operation} : Owned origin s → s.Owns op → Owned origin (s.call op)
  | regraph {d : Draft} {w : σ} {handles : List Label} (g : TypeGraph) : Owned origin ⟨⟨d, w⟩, handles⟩ →
    Owned origin ⟨⟨{ d with graph := g }, w⟩, handles⟩

theorem Owned.run {s : Session σ} (h : s.Owned origin) {ops : List Operation} (howns : s.Admits Owns ops) :
    (s.run ops).Owned origin :=
  run_induction (Owned origin) (fun _ _ hop hs => .call hs hop) h howns

theorem Owned.reserved {s : Session σ} (h : s.Owned origin) :
    Reserved s.builder.draft.labels s.builder.draft.regions s.handles := by
  induction h with
  | start g system method =>
    have hnone : (Session.start g system method origin).Admits Owns [] := trivial
    exact reserved_run hnone
  | call _ howns ih => exact reserved_call howns ih
  | regraph g _ ih => exact ih

/-- **`refused_regions`** — a block that does not open, or a region that does not close, leaves the builder as it
was, with two exceptions.  Between handlers a block that does not open has used up a label.  A construct that
overhangs, which takes code between handlers that can be reached, is closed and gone. -/
theorem refused_regions {s : Session Recording} (h : s.Owned Recording.empty) :
    (∀ e b', Builder.beginTry s.builder = .error e b' →
      (s.builder.draft.constrained ≠ none ∧ b' = s.builder) ∨
        (s.builder.draft.constrained = none ∧ s.builder.draft.regions.BetweenHandlers ∧
          b' = s.builder.spendLabel)) ∧
    (s.builder.draft.constrained = none → s.builder.draft.regions.BetweenHandlers →
      ∃ e, Builder.beginTry s.builder = .error e s.builder.spendLabel) ∧
    ∀ region,
      (¬ s.builder.draft.Overhangs region →
        ∀ e b', Builder.endRegion region s.builder = .error e b' → b' = s.builder) ∧
      (s.builder.draft.Overhangs region → s.builder.draft.Revived ∧
        ∃ e, Builder.endRegion region s.builder = .error e (s.builder.severed region)) := by
  refine ⟨fun _ _ => Builder.beginTry_refused, Builder.beginTry_betweenHandlers, fun region => ⟨?_, ?_⟩⟩
  · exact fun hlevel _ _ => Builder.endRegion_refused h.reserved hlevel
  · exact fun hover => ⟨hover.revived, Builder.endRegion_overhangs h.reserved hover⟩

end Session

namespace Sample

/-- A protected block with a finally handler, behind which a label brings back code with a number on the stack. -/
def overhang : Session Recording :=
  (Session.start graph system method Recording.empty).run
    [.beginTry, .defineLabel, .instruction (.ldcI4 1), .instruction (.ldcI4 1), .branch (.brtrue ⟨1⟩),
      .beginHandler ⟨0⟩ .finallyHandler, .endRegion ⟨1⟩, .markLabel ⟨1⟩]

theorem overhang_owned : overhang.Owned Recording.empty :=
  .run (.start graph system method) (by decide +kernel)

/-- Both refusals leave their traces: a label is used up, and the construct is closed. -/
theorem overhang_refusals :
    overhang.Owned Recording.empty ∧
      (Builder.beginTry.succeeds overhang.builder = false ∧
        (Builder.beginTry.reached overhang.builder).draft.labels ≠ overhang.builder.draft.labels) ∧
      ((Builder.endRegion ⟨0⟩).succeeds overhang.builder = false ∧
        ((Builder.endRegion ⟨0⟩).reached overhang.builder).draft.regions ≠ overhang.builder.draft.regions ∧
        ((Builder.endRegion ⟨0⟩).reached overhang.builder).sink ≠ overhang.builder.sink) :=
  ⟨overhang_owned, by decide +kernel⟩

theorem refused_regions_overhang :
    overhang.Owned Recording.empty ∧
      (∃ e, Builder.beginTry overhang.builder = .error e overhang.builder.spendLabel) ∧
      ∃ e, Builder.endRegion ⟨0⟩ overhang.builder = .error e (overhang.builder.severed ⟨0⟩) := by
  have hpoint : (overhang.builder.draft.constrained = none ∧ overhang.builder.draft.regions.BetweenHandlers) ∧
      overhang.builder.draft.stack.isReachable = true ∧ overhang.builder.draft.stack ≠ .empty ∧
      ∃ o ∈ overhang.builder.draft.regions.innermost?, overhang.builder.draft.regions.checkEnd ⟨0⟩ = .ok o ∧
        o.kind = .tryBlock ∧ overhang.builder.draft.labels.state? o.endLabel = some (.bound []) := by
    decide +kernel
  obtain ⟨⟨hfree, hbetween⟩, hreached, hladen, o, -, hcloses⟩ := hpoint
  obtain ⟨-, htry, hend⟩ := Session.refused_regions overhang_owned
  exact ⟨overhang_owned, htry hfree hbetween, ((hend ⟨0⟩).2 ⟨hfree, hreached, hladen, o, hcloses⟩).2⟩

end Sample

end ManagedCode
