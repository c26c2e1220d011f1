/-
# ManagedCode.Proofs.Builder.Books — a writer takes whatever a builder forwards.

The tracker keeps one stack of open regions, the writer four maps.  `Books` says which entries of the maps
belong to which regions of the stack, down to the filters that wait for their catch handler.  Every step of
a builder keeps the two in agreement, and a writer in agreement refuses none of the calls.  So operations on
a builder have the same outcomes over a writer as over a sink that only records.
-/
import ManagedCode.Proofs.Builder.Replay

namespace ManagedCode

open Body (Writer Registry ProtectedBlock)
open RegionTracker (Nested)

/-! ## § Filters that guard a handler to come -/

/-- A filter of the protected block is at work: it is open, or the block awaits its catch handler. -/
def OpenRegion.Filters (o : OpenRegion) (tryRegion : Region) : Prop :=
  (o.kind = .filterBlock ∧ o.tryRegion = tryRegion) ∨
    (o.kind = .tryBlock ∧ o.region = tryRegion ∧ o.awaitsCatch = true)

namespace OpenRegion

variable {o : OpenRegion} {r : Region}

theorem not_filters_of_settled (hfilter : o.kind ≠ .filterBlock) (hsettled : o.awaitsCatch = false) :
    ¬ o.Filters r := by
  rintro (⟨hkind, -⟩ | ⟨-, -, hawaits⟩)
  · exact hfilter hkind
  · exact Bool.false_ne_true (hsettled.symm.trans hawaits)

theorem filters_of_filterBlock (hkind : o.kind = .filterBlock) : o.Filters r ↔ o.tryRegion = r := by
  rw [Filters, hkind]
  simp

theorem filters_of_tryBlock (hkind : o.kind = .tryBlock) :
    o.Filters r ↔ o.region = r ∧ o.awaitsCatch = true := by
  rw [Filters, hkind]
  simp

end OpenRegion

/-- Every handler lies over the block that it belongs to. -/
theorem RegionTracker.Nested.owner_mem {opened : List OpenRegion} (hn : Nested opened) {h : OpenRegion}
    (hmem : h ∈ opened) (hkind : h.kind ≠ .tryBlock) : ∃ o ∈ opened, o.region = h.tryRegion := by
  induction hn with
  | nil => cases hmem
  | block hblock _ _ ih =>
    rcases List.mem_cons.mp hmem with rfl | hrest
    · exact absurd hblock hkind
    · obtain ⟨o, ho, howner⟩ := ih hrest
      exact ⟨o, List.mem_cons_of_mem _ ho, howner⟩
  | handler _ howner _ _ _ ih =>
    rcases List.mem_cons.mp hmem with rfl | hrest
    · exact ⟨_, List.mem_cons_of_mem _ List.mem_cons_self, howner.symm⟩
    · obtain ⟨o, ho, howner'⟩ := ih hrest
      exact ⟨o, List.mem_cons_of_mem _ ho, howner'⟩

/-- No filter of a block is at work further out than the block. -/
theorem RegionTracker.Nested.not_filters_outer {o : OpenRegion} {rest : List OpenRegion}
    (hn : Nested (o :: rest)) (hdistinct : ((o :: rest).map OpenRegion.region).Nodup) :
    ∀ p ∈ rest, ¬ p.Filters o.region := by
  rw [List.map_cons, List.nodup_cons] at hdistinct
  rintro p hp (⟨hkind, howner⟩ | ⟨-, hregion, -⟩)
  · have hhandler : p.kind ≠ .tryBlock := by
      rw [hkind]
      exact fun h => by cases h
    obtain ⟨q, hq, hsame⟩ := hn.tail.owner_mem hp hhandler
    exact hdistinct.1 (List.mem_map.mpr ⟨q, hq, hsame.trans howner⟩)
  · exact hdistinct.1 (List.mem_map.mpr ⟨p, hp, hregion⟩)

/-! ## § The stack and the maps -/

/-- **`Books`** — the four maps of a writer, read off the stack of a tracker. -/
structure Books (t : RegionTracker) (w : Writer) : Prop where
  blocks : ∀ r, (w.blocks.find? r).isSome = true ↔ ∃ o ∈ t.opened, o.region = r ∧ o.kind = .tryBlock
  handlers : ∀ r, (w.handlers.find? r).isSome = true ↔ ∃ o ∈ t.opened, o.region = r ∧ o.kind ≠ .tryBlock
  /-- A block has an end once it has had a handler. -/
  ended : ∀ o ∈ t.opened, o.kind = .tryBlock → ∀ block, w.blocks.find? o.region = some block →
    (block.stop.isSome = true ↔ o.handlers ≠ 0)
  pending : ∀ r, (w.pendingFilters.find? r).isSome = true ↔ ∃ o ∈ t.opened, o.Filters r

namespace Books

variable {t t' : RegionTracker} {w w' : Writer}

theorem congr (h : Books t w) (hblocks : w'.blocks = w.blocks) (hhandlers : w'.handlers = w.handlers)
    (hpending : w'.pendingFilters = w.pendingFilters) : Books t w' := by
  refine ⟨?_, ?_, ?_, ?_⟩
  · rw [hblocks]
    exact h.blocks
  · rw [hhandlers]
    exact h.handlers
  · rw [hblocks]
    exact h.ended
  · rw [hpending]
    exact h.pending

theorem beginTry (h : Books t w) (hregions : RegionsAgree t w) {endLabel : Label} {region : Region}
    (hbegin : t.beginTry endLabel = .ok (region, t')) : Books t' (w.beginBlock region) := by
  have hafter := hregions.beginTry hbegin
  obtain ⟨-, rfl, rfl⟩ := RegionTracker.beginTry_ok hbegin
  refine ⟨hafter.blocks, hafter.handlers, ?_, fun r => ?_⟩
  · have hfind (r : Region) : (w.beginBlock ⟨t.next⟩).blocks.find? r =
        if r = ⟨t.next⟩ then some { start := w.offset } else w.blocks.find? r := Registry.find?_insert _ _ _ _
    rw [List.forall_mem_cons]
    refine ⟨fun _ block hblock => ?_, fun o ho hkind block hblock => ?_⟩
    · rw [hfind, if_pos rfl] at hblock
      cases hblock
      simp
    · rw [hfind, if_neg (hregions.ne_next ho)] at hblock
      exact h.ended o ho hkind block hblock
  · rw [List.exists_mem_cons_iff]
    have hnew : ∀ endLabel, ¬ OpenRegion.Filters
        { region := ⟨t.next⟩, kind := .tryBlock, tryRegion := ⟨t.next⟩, endLabel } r :=
      fun _ => OpenRegion.not_filters_of_settled (by simp) rfl
    exact (h.pending r).trans (or_iff_right (hnew _)).symm

/-- A handler takes the filter that waits for it; a filter block starts to wait. -/
theorem beginHandler (h : Books t w) (hregions : RegionsAgree t w) {g : TypeGraph}
    {tryRegion region : Region} {kind : RegionKind}
    (hbegin : t.beginHandler tryRegion kind = .ok (region, t'))
    (hsink : Writer.beginHandler g region kind tryRegion w = .ok () w') (hafter : RegionsAgree t' w') :
    Books t' w' := by
  obtain ⟨entry, hentry, -⟩ := Except.bind_eq_ok_iff.mp hbegin
  obtain ⟨o, rest, hopened, rfl, hblock, hkind, rfl, rfl⟩ := RegionTracker.beginHandler_ok hbegin
  have ho : o ∈ t.opened := by
    rw [hopened]
    exact List.mem_cons_self
  have hdistinct := hregions.distinct
  have hn := hregions.nested
  rw [hopened] at hdistinct hn
  have hrest : ∀ o' ∈ rest, o' ∈ t.opened ∧ o'.region ≠ o.region := by
    rw [List.map_cons, List.nodup_cons] at hdistinct
    intro o' ho'
    refine ⟨?_, fun heq => hdistinct.1 (List.mem_map.mpr ⟨o', ho', heq⟩)⟩
    rw [hopened]
    exact List.mem_cons_of_mem _ ho'
  obtain ⟨-, block, pendingFilters, hfound, rfl, hpending⟩ := Writer.beginHandler_cases hsink
  have hfind := Writer.find?_endBlock_eq hfound
  refine ⟨hafter.blocks, hafter.handlers, ?_, fun r => ?_⟩
  · rw [List.forall_mem_cons, List.forall_mem_cons]
    refine ⟨fun hhandler => absurd hhandler hkind, fun hkind' found hfound' => ?_, ?_⟩
    · have hhas := OpenRegion.hasHandlers_withHandler kind hblock
      exact iff_of_true (hafter.ended _ (List.mem_cons_of_mem _ List.mem_cons_self) hhas found hfound') hhas.2
    · intro o' ho' hkind' found hfound'
      rw [hfind, if_neg (hrest o' ho').2] at hfound'
      exact h.ended o' (hrest o' ho').1 hkind' found hfound'
  · have hbefore := h.pending o.region
    rw [hopened, List.exists_mem_cons_iff, or_iff_left (fun ⟨p, hp, hfilters⟩ =>
      hn.not_filters_outer hdistinct p hp hfilters), OpenRegion.filters_of_tryBlock hblock,
      and_iff_right rfl] at hbefore
    have hsettled : ¬ (o.withHandler kind).Filters r :=
      OpenRegion.not_filters_of_settled (fun hfilter => by cases hblock.symm.trans hfilter) rfl
    show (pendingFilters.find? r).isSome = true ↔ _
    rw [hpending, List.exists_mem_cons_iff, List.exists_mem_cons_iff, or_iff_right hsettled]
    by_cases hr : r = o.region
    · subst hr
      rw [if_pos rfl, or_iff_left fun ⟨p, hp, hfilters⟩ => hn.not_filters_outer hdistinct p hp hfilters]
      -- Only a catch handler may follow a filter, so nothing else leaves a filter behind.
      have hnone : kind.isCatch = false → w.pendingFilters.find? o.region = none := by
        intro hcatch
        rw [← Option.not_isSome_iff_eq_none, hbefore]
        intro hawaits
        rw [RegionTracker.checkHandler_awaited hentry hopened hawaits] at hcatch
        cases hcatch
      cases kind with
      | tryBlock => exact absurd rfl hkind
      | filterBlock => exact iff_of_true rfl (.inl ⟨rfl, rfl⟩)
      | catchHandler exception =>
        exact iff_of_false (by simp [Writer.pendingAfter]) (OpenRegion.not_filters_of_settled (by simp) rfl)
      | faultHandler =>
        exact iff_of_false (by simp [Writer.pendingAfter, hnone rfl])
          (OpenRegion.not_filters_of_settled (by simp) rfl)
      | finallyHandler =>
        exact iff_of_false (by simp [Writer.pendingAfter, hnone rfl])
          (OpenRegion.not_filters_of_settled (by simp) rfl)
    · rw [if_neg hr, h.pending r, hopened, List.exists_mem_cons_iff]
      have hold : ¬ o.Filters r := by
        rw [OpenRegion.filters_of_tryBlock hblock]
        exact fun hfilters => hr hfilters.1.symm
      rw [or_iff_right hold]
      refine (or_iff_right ?_).symm
      rintro (⟨-, howner⟩ | ⟨htry, -⟩)
      · exact hr howner.symm
      · exact hkind htry

/-- A filter that is closed leaves its block waiting. -/
theorem endRegion (h : Books t w) (hregions : RegionsAgree t w) {region : Region} {o : OpenRegion}
    (hend : t.endRegion region = .ok (o, t')) (hsink : Writer.endRegion region w = .ok () w')
    (hafter : RegionsAgree t' w') : Books t' w' := by
  obtain ⟨hcheck, -, rest, hopened, hcases⟩ := RegionTracker.endRegion_ok hend
  obtain ⟨hpending, hblocks⟩ := Writer.endRegion_ok hsink
  have hn := hregions.nested
  have hended := h.ended
  have hbefore := h.pending
  simp only [hopened, List.forall_mem_cons, List.exists_mem_cons_iff] at hn hended hbefore
  refine ⟨hafter.blocks, hafter.handlers, ?_, fun r => ?_⟩
  · have hkept : ∀ p ∈ rest, p.kind = .tryBlock → ∀ block, w'.blocks.find? p.region = some block →
        (block.stop.isSome = true ↔ p.handlers ≠ 0) :=
      fun p hp hkind block hblock => hended.2 p hp hkind block (hblocks _ _ hblock)
    rcases hcases with hrest | ⟨p, outer, -, rfl, hrest⟩
    · rw [hrest]
      exact hkept
    · rw [hrest]
      rw [List.forall_mem_cons] at hkept ⊢
      exact hkept
  · rw [hpending, hbefore]
    by_cases hfilter : o.kind = .filterBlock
    · have hhandler : o.kind ≠ .tryBlock := by
        rw [hfilter]
        exact fun h => by cases h
      obtain ⟨p, outer, rfl, howner, hhas⟩ := hn.under_handler hhandler
      -- The filter hands its part over to the block that it lies on.
      have hrest := RegionTracker.endRegion_filter hend hfilter hopened
      have hwaits : OpenRegion.Filters { p with awaitsCatch := true } r ↔ p.region = r :=
        (OpenRegion.filters_of_tryBlock (o := { p with awaitsCatch := true }) hhas.1).trans
          (and_iff_left rfl)
      rw [hrest, List.exists_mem_cons_iff, List.exists_mem_cons_iff, hwaits,
        OpenRegion.filters_of_filterBlock hfilter, OpenRegion.filters_of_tryBlock hhas.1, howner, ← or_assoc]
      exact or_congr_left (or_iff_left_of_imp And.left)
    · have hsettled : ¬ o.Filters r := by
        rintro (⟨hkind, -⟩ | ⟨hkind, -, hawaits⟩)
        · exact hfilter hkind
        · rw [RegionTracker.checkEnd_awaited hcheck hkind] at hawaits
          cases hawaits
      rw [or_iff_right hsettled]
      rcases hcases with hrest | ⟨-, -, hkind, -, -⟩
      · rw [hrest]
      · exact absurd hkind hfilter

end Books

/-! ## § The writer takes every call -/

/-- **`Accepted`** — a writer has taken all calls of a builder over a transcript, and its books agree with the
draft. -/
structure Accepted (b : Builder Transcript) (w : Writer) : Prop where
  taken : Takes Writer.empty b.sink.calls w
  laid : Laid b.draft.labels b.draft.regions b.draft.records w
  books : Books b.draft.regions w

namespace Accepted

/-- One more call is taken. -/
theorem add (call : Delivery) {t t' : Transcript} {w w' : Writer} (h : Takes Writer.empty t.calls w)
    (hcall : call.make w = .ok () w') (hmade : call.make t = .ok () t') : Takes Writer.empty t'.calls w' := by
  rw [Transcript.make_eq] at hmade
  cases hmade
  exact takes_concat.mpr ⟨w, h, hcall⟩

variable {d : Draft} {t t' : Transcript} {w : Writer}

theorem endRegion (h : Accepted ⟨d, t⟩ w) {region : Region} {o : OpenRegion} {regions : RegionTracker}
    (hend : d.regions.endRegion region = .ok (o, regions))
    (hsink : CodeSink.endRegion region t = .ok () t') :
    ∃ w', Takes Writer.empty t'.calls w' ∧ Laid d.labels regions d.records w' ∧ Books regions w' := by
  obtain ⟨w', hok, hlaid⟩ := h.laid.endRegion hend
  exact ⟨w', add (.endRegion region) h.taken hok hsink, hlaid,
    h.books.endRegion h.laid.regions hend hok hlaid.regions⟩

theorem place {labels labels' : LabelTable} {regions : RegionTracker} {records : Array InstructionRecord}
    (htaken : Takes Writer.empty t.calls w) (hlaid : Laid labels regions records w) (hbooks : Books regions w)
    {g : TypeGraph} {l : Label} {fallThrough resume : AbstractStack}
    (hplace : labels.place g l fallThrough = .ok (resume, labels'))
    (hsink : CodeSink.markLabel l t = .ok () t') :
    ∃ w', Takes Writer.empty t'.calls w' ∧ Laid labels' regions records w' ∧ Books regions w' := by
  obtain ⟨w', hok, hlaid'⟩ := hlaid.place hplace
  refine ⟨w', add (.label l) htaken hok hsink, hlaid', ?_⟩
  have hsame := Writer.markLabel_eq (Option.not_isSome_iff_eq_none.mp (fun hplaced => by
    rw [hlaid.places, LabelTable.not_isPlaced_of_place hplace] at hplaced
    cases hplaced))
  cases hok.symm.trans hsame
  exact hbooks.congr rfl rfl rfl

/-- **`Accepted.step`** — the writer takes the calls of every step, and stays in agreement. -/
theorem step {op : Operation} {b b' : Builder Transcript} (hstep : Step op b b') (h : Accepted b w) :
    ∃ w', Accepted b' w' := by
  cases hstep with
  | declareLocal => exact ⟨w, h.taken, h.laid, h.books⟩
  | defineLabel => exact ⟨w, h.taken, h.laid.define, h.books⟩
  | addResultTypes =>
    rw [Draft.addResultTypes_eq]
    exact ⟨w, h.taken, h.laid, h.books⟩
  | report => exact ⟨w, h.taken, h.laid, h.books⟩
  | @instruction d t t' insn after hinsn hvirtual hok hsink =>
    have htaken := add (.instruction _ insn) h.taken rfl hsink
    rw [Draft.addResultTypes_eq] at htaken ⊢
    exact ⟨_, htaken, h.laid.emit _ _ _, h.books.congr rfl rfl rfl⟩
  | instructionRefused hsink => cases hsink
  | @branch d t t' b j hb hj hsink =>
    obtain ⟨late, hcommit, -, -⟩ := Draft.commitBranch_eq b j (d.note (.emitted ⟨.branch b, d.stack⟩))
    rw [hcommit]
    exact ⟨_, add (.branch b) h.taken rfl hsink, h.laid.branch hj, h.books.congr rfl rfl rfl⟩
  | branchRefused hsink => cases hsink
  | place hop hfree hplace hsink =>
    obtain ⟨w', htaken, hlaid, hbooks⟩ := place h.taken h.laid h.books hplace hsink
    exact ⟨w', htaken, hlaid, hbooks⟩
  | placeRefused hop hplace hsink => cases hsink
  | @beginTry d t t' region regions hfree hbegin hsink =>
    exact ⟨_, add (.beginRegion d.graph region .tryBlock none) h.taken rfl hsink,
      h.laid.define.withRegions (h.laid.regions.beginTry hbegin) rfl rfl,
      h.books.beginTry h.laid.regions hbegin⟩
  | beginTryRefused hbegin hsink => cases hsink
  | @beginHandler d t t' tryRegion region kind regions hop hfree hbetween hbegin hsink =>
    obtain ⟨w', hok, hlaid⟩ := h.laid.beginHandler d.graph hbegin
    exact ⟨w', add (.beginRegion d.graph region kind (some tryRegion)) h.taken hok hsink, hlaid,
      h.books.beginHandler h.laid.regions hbegin hok hlaid.regions⟩
  | beginHandlerRefused hbetween hbegin hsink => cases hsink
  | endHandler hfree hkind hdead hend hsink =>
    obtain ⟨w', htaken, hlaid, hbooks⟩ := h.endRegion hend hsink
    exact ⟨w', htaken, hlaid, hbooks⟩
  | endTry hfree hblock hend hsink hplace hmark =>
    obtain ⟨w₁, htaken, hlaid, hbooks⟩ := h.endRegion hend hsink
    obtain ⟨w', htaken', hlaid', hbooks'⟩ := place htaken hlaid hbooks hplace hmark
    exact ⟨w', htaken', hlaid', hbooks'⟩
  | endTryUnplaced hblock hend hsink =>
    obtain ⟨w', htaken, hlaid, hbooks⟩ := h.endRegion hend hsink
    exact ⟨w', htaken, hlaid, hbooks⟩
  | endTryRefused hblock hend hsink hplace hmark => cases hmark
  | endRefused hdead hend hsink => cases hsink

end Accepted

namespace Session

theorem accepted_run (g : TypeGraph) (system : SystemTypes) (method : MethodId) (ops : List Operation) :
    ∃ w, Accepted ((start g system method Transcript.empty).run ops).builder w := by
  refine run_induction (fun s => ∃ w, Accepted s.builder w) (fun s op _ hs => ?_) ?_
    (admits_true (start g system method Transcript.empty) ops)
  · refine call_induction (fun b => ∃ w, Accepted b w) (fun b b' hstep _ hb => ?_) hs
    obtain ⟨w, hw⟩ := hb
    exact hw.step hstep
  · have hregions : (start g system method Transcript.empty).builder.draft.regions = {} :=
      Draft.regions_start g system method
    refine ⟨Writer.empty, takes_nil.mpr rfl, laid_run g system method [], ?_⟩
    rw [hregions]
    refine ⟨fun r => ?_, fun r => ?_, by simp, fun r => ?_⟩ <;> simp [Writer.empty, Registry.find?]

theorem mirrors_writer (g : TypeGraph) (system : SystemTypes) (method : MethodId) (ops : List Operation) :
    Mirrors Writer.empty ((start g system method Writer.empty).run ops)
      ((start g system method Transcript.empty).run ops) := by
  obtain ⟨w, hw⟩ := accepted_run g system method ops
  exact (mirrors_start g system method Writer.empty).run ⟨w, hw.taken⟩

/-- **`unrefused`** — the writer takes all calls that a builder makes, so every operation has the outcome that
it has over a recording; and the books of the writer are those of the tracker. -/
theorem unrefused (g : TypeGraph) (system : SystemTypes) (method : MethodId) (ops : List Operation) :
    let written := (start g system method Writer.empty).run ops
    let recorded := (start g system method Recording.empty).run ops
    let transcribed := (start g system method Transcript.empty).run ops
    Takes Writer.empty transcribed.builder.sink.calls written.builder.sink ∧
    Takes Recording.empty transcribed.builder.sink.calls recorded.builder.sink ∧
    written.builder.draft = recorded.builder.draft ∧ written.handles = recorded.handles ∧
    (∀ op : Operation, SameOutcome
      (fun w r => ∃ t : Transcript, Takes Writer.empty t.calls w ∧ Takes Recording.empty t.calls r)
      (op.answer written.builder) (op.answer recorded.builder)) ∧
    Books written.builder.draft.regions written.builder.sink := by
  intro written recorded transcribed
  have hwritten : Mirrors Writer.empty written transcribed := mirrors_writer g system method ops
  have hrecorded : Mirrors Recording.empty recorded transcribed := mirrors_recording g system method ops
  refine ⟨hwritten.taken, hrecorded.taken, hwritten.draft.trans hrecorded.draft.symm,
    hwritten.handles.trans hrecorded.handles.symm, fun op => ?_, ?_⟩
  · -- One more operation makes a session, and its calls are taken too.
    have hmore := (mirrors_writer g system method (ops ++ [op])).taken
    rw [run_concat] at hmore
    exact (hwritten.outcome op ⟨_, hmore⟩).join (hrecorded.outcome op (Recording.takes _ _))
  · obtain ⟨w, hw⟩ := accepted_run g system method ops
    rw [hwritten.draft, hwritten.taken.unique hw.taken]
    exact hw.books

end Session

end ManagedCode
