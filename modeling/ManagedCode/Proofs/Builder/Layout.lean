/-
# ManagedCode.Proofs.Builder.Layout — finished bodies and their layout.

The builder and the writer keep separate books on the same body.  `Laid` says how they agree: the same
labels have places, the same regions are open, and the offsets that the writer will fill in are those of
the recorded branches.  It follows that the writer never refuses a call of the builder, and that a body
the builder calls finished can be laid out exactly if every target of a dead branch has a place: dead
branches are forwarded like others, and only the writer takes notice of their targets.
-/
import ManagedCode.Proofs.Body.Writer
import ManagedCode.Proofs.Builder.Steps

namespace ManagedCode

open Body (Writer Registry Fixup)
open RegionTracker (Nested)

/-! ## § Open regions -/

/-- **`RegionsAgree`** — the writer has a book of the open protected blocks and a book of the open handlers;
blocks that have handlers have ended. -/
structure RegionsAgree (t : RegionTracker) (w : Writer) : Prop where
  nested : Nested t.opened
  distinct : (t.opened.map OpenRegion.region).Nodup
  numbered : ∀ o ∈ t.opened, o.region.index < t.next
  blocks : ∀ r, (w.blocks.find? r).isSome = true ↔ ∃ o ∈ t.opened, o.region = r ∧ o.kind = .tryBlock
  handlers : ∀ r, (w.handlers.find? r).isSome = true ↔ ∃ o ∈ t.opened, o.region = r ∧ o.kind ≠ .tryBlock
  ended : ∀ o ∈ t.opened, o.HasHandlers → ∀ block, w.blocks.find? o.region = some block →
    block.stop.isSome = true
  owned : ∀ o ∈ t.opened, o.kind ≠ .tryBlock → ∀ handler, w.handlers.find? o.region = some handler →
    handler.tryRegion = o.tryRegion

namespace RegionsAgree

variable {t t' : RegionTracker} {w w' : Writer}

/-- Nothing else in the books matters. -/
theorem congr (h : RegionsAgree t w) (hblocks : w'.blocks = w.blocks) (hhandlers : w'.handlers = w.handlers) :
    RegionsAgree t w' := by
  refine ⟨h.nested, h.distinct, h.numbered, ?_, ?_, ?_, ?_⟩
  · rw [hblocks]
    exact h.blocks
  · rw [hhandlers]
    exact h.handlers
  · rw [hblocks]
    exact h.ended
  · rw [hhandlers]
    exact h.owned

/-- The number of a new region is free. -/
theorem ne_next (h : RegionsAgree t w) {o : OpenRegion} (ho : o ∈ t.opened) : o.region ≠ ⟨t.next⟩ := by
  intro heq
  have hlt := h.numbered o ho
  rw [heq] at hlt
  exact Nat.lt_irrefl _ hlt

theorem beginTry (h : RegionsAgree t w) {endLabel : Label} {region : Region}
    (hbegin : t.beginTry endLabel = .ok (region, t')) : RegionsAgree t' (w.beginBlock region) := by
  have hn := h.nested.beginTry hbegin
  obtain ⟨-, rfl, rfl⟩ := RegionTracker.beginTry_ok hbegin
  have hfind (r : Region) : (w.beginBlock ⟨t.next⟩).blocks.find? r =
      if r = ⟨t.next⟩ then some { start := w.offset } else w.blocks.find? r := Registry.find?_insert _ _ _ _
  refine ⟨hn, ?_, ?_, ?_, ?_, ?_, ?_⟩
  · rw [List.map_cons, List.nodup_cons]
    refine ⟨fun hmem => ?_, h.distinct⟩
    obtain ⟨o, ho, heq⟩ := List.mem_map.mp hmem
    exact h.ne_next ho heq
  · intro o ho
    rcases List.mem_cons.mp ho with rfl | ho
    · exact Nat.lt_succ_self _
    · exact Nat.lt_succ_of_lt (h.numbered o ho)
  · intro r
    rw [hfind, List.exists_mem_cons_iff]
    by_cases hnew : r = ⟨t.next⟩
    · rw [if_pos hnew]
      exact iff_of_true rfl (.inl ⟨hnew.symm, rfl⟩)
    · rw [if_neg hnew, h.blocks]
      exact (or_iff_right fun hfirst => hnew hfirst.1.symm).symm
  · intro r
    rw [List.exists_mem_cons_iff]
    exact (h.handlers r).trans (or_iff_right fun hfirst => hfirst.2 rfl).symm
  · rw [List.forall_mem_cons]
    refine ⟨fun hhas => absurd rfl hhas.2, fun o ho hhas block hblock => ?_⟩
    rw [hfind, if_neg (h.ne_next ho)] at hblock
    exact h.ended o ho hhas block hblock
  · rw [List.forall_mem_cons]
    exact ⟨fun hkind => absurd rfl hkind, h.owned⟩

/-- A handler opens on the innermost block, which has ended by then. -/
theorem beginHandler (h : RegionsAgree t w) (g : TypeGraph) {tryRegion region : Region}
    {kind : RegionKind} (hbegin : t.beginHandler tryRegion kind = .ok (region, t')) :
    ∃ w', Writer.beginHandler g region kind tryRegion w = .ok () w' ∧
      w'.labels = w.labels ∧ w'.fixups = w.fixups ∧ RegionsAgree t' w' := by
  have hn := h.nested.beginHandler hbegin
  obtain ⟨o, rest, hopened, hregion, hblock, hkind, rfl, rfl⟩ := RegionTracker.beginHandler_ok hbegin
  have ho : o ∈ t.opened := by
    rw [hopened]
    exact List.mem_cons_self
  have hrest : ∀ o' ∈ rest, o' ∈ t.opened := by
    rw [hopened]
    exact fun o' ho' => List.mem_cons_of_mem _ ho'
  obtain ⟨block, hfound⟩ := Option.isSome_iff_exists.mp ((h.blocks tryRegion).mpr ⟨o, ho, hregion, hblock⟩)
  obtain ⟨w', handler, hok, hlabels, hfixups, hblocks, hhandlers, howner⟩ :=
    Writer.beginHandler_ok g ⟨t.next⟩ hkind hfound
  obtain ⟨block', hended, hfind⟩ := Writer.find?_endBlock hfound
  rw [← hblocks] at hfind
  refine ⟨w', hok, hlabels, hfixups, hn, ?_, ?_, ?_, ?_, ?_, ?_⟩
  · have hdistinct := h.distinct
    rw [hopened] at hdistinct
    rw [List.map_cons, List.nodup_cons]
    refine ⟨fun hmem => ?_, hdistinct⟩
    obtain ⟨o', ho', heq⟩ := List.mem_map.mp hmem
    rcases List.mem_cons.mp ho' with rfl | ho'
    · exact h.ne_next ho heq
    · exact h.ne_next (hrest o' ho') heq
  · rw [List.forall_mem_cons, List.forall_mem_cons]
    exact ⟨Nat.lt_succ_self _, Nat.lt_succ_of_lt (h.numbered o ho),
      fun o' ho' => Nat.lt_succ_of_lt (h.numbered o' (hrest o' ho'))⟩
  · intro r
    -- Ending a block rewrites its entry, so the same blocks are in the book.
    have hsame : (w'.blocks.find? r).isSome = (w.blocks.find? r).isSome := by
      rw [hfind]
      by_cases hr : r = tryRegion
      · rw [if_pos hr, hr, hfound]
        rfl
      · rw [if_neg hr]
    rw [hsame, h.blocks, hopened, List.exists_mem_cons_iff, List.exists_mem_cons_iff,
      List.exists_mem_cons_iff]
    exact (or_iff_right fun hfirst => hkind hfirst.2).symm
  · intro r
    rw [hhandlers, Registry.find?_insert, List.exists_mem_cons_iff]
    by_cases hnew : r = ⟨t.next⟩
    · rw [if_pos hnew]
      exact iff_of_true rfl (.inl ⟨hnew.symm, hkind⟩)
    · rw [if_neg hnew, h.handlers, hopened, List.exists_mem_cons_iff, List.exists_mem_cons_iff]
      exact (or_iff_right fun hfirst => hnew hfirst.1.symm).symm
  · rw [List.forall_mem_cons, List.forall_mem_cons]
    refine ⟨fun hhas => absurd hhas.1 hkind, ?_, ?_⟩
    · intro _ found hfound'
      have hr : (o.withHandler kind).region = tryRegion := hregion
      rw [hfind, if_pos hr] at hfound'
      cases hfound'
      exact hended
    · intro o' ho' hhas found hfound'
      rw [hfind] at hfound'
      split at hfound'
      · cases hfound'
        exact hended
      · exact h.ended o' (hrest o' ho') hhas found hfound'
  · rw [List.forall_mem_cons, List.forall_mem_cons]
    rw [hhandlers]
    refine ⟨?_, fun hne => absurd hblock hne, ?_⟩
    · intro _ found hfound'
      rw [Registry.find?_insert, if_pos rfl] at hfound'
      cases hfound'
      exact howner
    · intro o' ho' hkind' found hfound'
      rw [Registry.find?_insert, if_neg (h.ne_next (hrest o' ho'))] at hfound'
      exact h.owned o' (hrest o' ho') hkind' found hfound'

/-- The region that is closed is in one book, and leaves it. -/
theorem close {o : OpenRegion} {rest : List OpenRegion} (h : RegionsAgree t w)
    (hopened : t.opened = o :: rest) :
    ∃ w', Writer.endRegion o.region w = .ok () w' ∧ w'.labels = w.labels ∧ w'.fixups = w.fixups ∧
      RegionsAgree { t with opened := rest } w' := by
  have hn := h.nested
  have hdistinct := h.distinct
  have hnumbered := h.numbered
  rw [hopened] at hn hdistinct hnumbered
  rw [List.map_cons, List.nodup_cons] at hdistinct
  have ho : o ∈ t.opened := by
    rw [hopened]
    exact List.mem_cons_self
  have hrest : ∀ o' ∈ rest, o' ∈ t.opened := by
    rw [hopened]
    exact fun o' ho' => List.mem_cons_of_mem _ ho'
  have hne : ∀ o' ∈ rest, o'.region ≠ o.region :=
    fun o' ho' heq => hdistinct.1 (List.mem_map.mpr ⟨o', ho', heq⟩)
  have hblocks (r : Region) := h.blocks r
  have hhandlers (r : Region) := h.handlers r
  simp only [hopened, List.exists_mem_cons_iff] at hblocks hhandlers
  -- Blocks and handlers are in different books; the other book is not touched.
  by_cases hkind : o.kind = .tryBlock
  · obtain ⟨block, hfound⟩ :=
      Option.isSome_iff_exists.mp ((hblocks o.region).mpr (.inl ⟨rfl, hkind⟩))
    refine ⟨_, Writer.endRegion_block hfound, rfl, rfl, hn.tail, hdistinct.2,
      fun o' ho' => hnumbered o' (List.mem_cons_of_mem _ ho'), ?_, ?_, ?_,
      fun o' ho' => h.owned o' (hrest o' ho')⟩
    · intro r
      rw [Registry.find?_erase]
      by_cases hr : r = o.region
      · rw [if_pos hr, hr]
        refine iff_of_false (by simp) ?_
        rintro ⟨o', ho', hr', -⟩
        exact hne o' ho' hr'
      · rw [if_neg hr, hblocks]
        exact or_iff_right fun hfirst => hr hfirst.1.symm
    · intro r
      exact (hhandlers r).trans (or_iff_right fun hfirst => hfirst.2 hkind)
    · intro o' ho' hhas found hfound'
      rw [Registry.find?_erase, if_neg (hne o' ho')] at hfound'
      exact h.ended o' (hrest o' ho') hhas found hfound'
  · obtain ⟨p, outer, rfl, howner, hhas⟩ := hn.under_handler hkind
    have hp : p ∈ t.opened := hrest p List.mem_cons_self
    obtain ⟨handler, hhandler⟩ :=
      Option.isSome_iff_exists.mp ((hhandlers o.region).mpr (.inl ⟨rfl, hkind⟩))
    obtain ⟨block, hblock⟩ := Option.isSome_iff_exists.mp ((h.blocks p.region).mpr ⟨p, hp, rfl, hhas.1⟩)
    have hnone : w.blocks.find? o.region = none := by
      rw [← Option.not_isSome_iff_eq_none, hblocks]
      rintro (⟨-, hblock'⟩ | ⟨o', ho', hr, -⟩)
      · exact hkind hblock'
      · exact hne o' ho' hr
    have hblock' : w.blocks.find? handler.tryRegion = some block := by
      rw [h.owned o ho hkind handler hhandler, howner]
      exact hblock
    obtain ⟨w', hok, hlabels, hfixups, hsame, herased⟩ :=
      Writer.endRegion_handler hnone hhandler hblock' (h.ended p hp hhas block hblock)
    refine ⟨w', hok, hlabels, hfixups, hn.tail, hdistinct.2,
      fun o' ho' => hnumbered o' (List.mem_cons_of_mem _ ho'), ?_, ?_, ?_, ?_⟩
    · intro r
      rw [hsame]
      exact (hblocks r).trans (or_iff_right fun hfirst => hkind hfirst.2)
    · intro r
      rw [herased, Registry.find?_erase]
      by_cases hr : r = o.region
      · rw [if_pos hr, hr]
        refine iff_of_false (by simp) ?_
        rintro ⟨o', ho', hr', -⟩
        exact hne o' ho' hr'
      · rw [if_neg hr, hhandlers]
        exact or_iff_right fun hfirst => hr hfirst.1.symm
    · rw [hsame]
      exact fun o' ho' => h.ended o' (hrest o' ho')
    · intro o' ho' hkind' found hfound'
      rw [herased, Registry.find?_erase, if_neg (hne o' ho')] at hfound'
      exact h.owned o' (hrest o' ho') hkind' found hfound'

/-- Whether a block waits for a catch handler is in no book. -/
theorem awaitCatch {p : OpenRegion} {outer : List OpenRegion}
    (h : RegionsAgree { t with opened := p :: outer } w)
    (hn : Nested ({ p with awaitsCatch := true } :: outer)) :
    RegionsAgree { t with opened := { p with awaitsCatch := true } :: outer } w := by
  refine ⟨hn, h.distinct, ?_, ?_, ?_, ?_, ?_⟩
  · have hnumbered := h.numbered
    rw [List.forall_mem_cons] at hnumbered ⊢
    exact hnumbered
  · intro r
    have hblocks := h.blocks r
    rw [List.exists_mem_cons_iff] at hblocks ⊢
    exact hblocks
  · intro r
    have hhandlers := h.handlers r
    rw [List.exists_mem_cons_iff] at hhandlers ⊢
    exact hhandlers
  · have hended := h.ended
    rw [List.forall_mem_cons] at hended ⊢
    exact hended
  · have howned := h.owned
    rw [List.forall_mem_cons] at howned ⊢
    exact howned

theorem endRegion (h : RegionsAgree t w) {region : Region} {o : OpenRegion}
    (hend : t.endRegion region = .ok (o, t')) :
    ∃ w', Writer.endRegion region w = .ok () w' ∧ w'.labels = w.labels ∧ w'.fixups = w.fixups ∧
      RegionsAgree t' w' := by
  have hn := h.nested.endRegion hend
  obtain ⟨hcheck, hnext, rest, hopened, hcases⟩ := RegionTracker.endRegion_ok hend
  obtain ⟨rest', hopened', rfl, -⟩ := RegionTracker.checkEnd_ok hcheck
  obtain ⟨w', hok, hlabels, hfixups, hagree⟩ := h.close hopened
  refine ⟨w', hok, hlabels, hfixups, ?_⟩
  obtain ⟨opened', next'⟩ := t'
  cases hnext
  rcases hcases with hrest | ⟨p, outer, -, rfl, hrest⟩
  · cases hrest
    exact hagree
  · cases hrest
    exact hagree.awaitCatch hn

end RegionsAgree

/-! ## § The two books -/

/-- **`Laid`** — the writer has laid out what the builder has recorded, and every branch that can be reached
has left a record with its targets. -/
structure Laid (labels : LabelTable) (regions : RegionTracker) (records : Array InstructionRecord)
    (w : Writer) : Prop where
  regions : RegionsAgree regions w
  places : ∀ l, (w.labels.find? l).isSome = labels.isPlaced l
  targets : w.fixups.toList.map Fixup.target = records.toList.flatMap fun r => r.item.targets
  reached : ∀ r ∈ records.toList, r.stackBefore.isReachable = true → ∀ l ∈ r.item.targets,
    ∃ slots, labels.Records l slots

namespace Laid

variable {labels labels' : LabelTable} {regions regions' : RegionTracker}
  {records : Array InstructionRecord} {w : Writer}

theorem define (h : Laid labels regions records w) : Laid labels.define.2 regions records w := by
  refine ⟨h.regions, fun l => ?_, h.targets, fun r hr hreachable l hl => ?_⟩
  · rw [LabelTable.isPlaced_define, h.places]
  · obtain ⟨slots, hslots⟩ := h.reached r hr hreachable l hl
    exact ⟨slots, hslots.define⟩

/-- A straight-line instruction jumps nowhere. -/
theorem emit (h : Laid labels regions records w) (g : TypeGraph) (insn : Instruction)
    (stack : AbstractStack) :
    Laid labels regions (records.push ⟨.straight insn, stack⟩) (w.emit g insn) := by
  refine ⟨h.regions.congr rfl rfl, h.places, ?_, ?_⟩
  · rw [Array.toList_push, List.flatMap_append]
    show w.fixups.toList.map Fixup.target = _ ++ []
    rw [h.targets, List.append_nil]
  · rw [Array.toList_push]
    intro r hr hreachable l hl
    rcases List.mem_append.mp hr with hr | hr
    · exact h.reached r hr hreachable l hl
    · rw [List.mem_singleton] at hr
      rw [hr] at hl
      cases hl

/-- A branch asks for places of its targets, and leaves a record with each of them if it can be reached. -/
theorem branch {d : Draft} (h : Laid d.labels d.regions d.records w) {b : Branch Label}
    {j : AbstractStack.Jump} (hj : d.checkBranch b = .ok j) :
    Laid (Draft.edgesInto j.delivered b.targets d.labels) d.regions
      (d.records.push ⟨.branch b, d.stack⟩) (w.emitBranch b) := by
  obtain ⟨-, -, hjump, hedges⟩ := Draft.checkBranch_ok hj
  refine ⟨h.regions.congr rfl rfl, fun l => ?_, ?_, ?_⟩
  · rw [Draft.edgesInto, LabelTable.isPlaced_recordEdges]
    exact h.places l
  · rw [Writer.targets_emitBranch, Array.toList_push, List.flatMap_append, h.targets]
    show _ = _ ++ (b.targets ++ [])
    rw [List.append_nil]
  · rw [Array.toList_push]
    intro r hr hreachable l hl
    rcases List.mem_append.mp hr with hr | hr
    · obtain ⟨slots, hslots⟩ := h.reached r hr hreachable l hl
      exact ⟨slots, hslots.recordEdges _ _⟩
    · rw [List.mem_singleton] at hr
      subst hr
      -- A dead branch leaves no trace in the table, so only this one counts.
      cases hstack : d.stack with
      | unreachable =>
        rw [hstack] at hreachable
        cases hreachable
      | reachable slots =>
        rw [hstack] at hjump
        obtain ⟨found, hfound⟩ := AbstractStack.jump_delivers hjump
        obtain ⟨state, hstate, -⟩ := LabelTable.checkEdge_ok_iff.mp (hedges l hl)
        obtain ⟨slots', hslots', -⟩ := LabelTable.records_of_edge ⟨state, hstate⟩ found hl
        rw [hfound]
        exact ⟨slots', hslots'⟩

/-- The writer has no place yet for a label that the builder places. -/
theorem place (h : Laid labels regions records w) {g : TypeGraph} {l : Label}
    {fallThrough resume : AbstractStack} (hplace : labels.place g l fallThrough = .ok (resume, labels')) :
    ∃ w', CodeSink.markLabel l w = .ok () w' ∧ Laid labels' regions records w' := by
  have hnone : w.labels.find? l = none := by
    rw [← Option.not_isSome_iff_eq_none, h.places, LabelTable.not_isPlaced_of_place hplace]
    exact Bool.false_ne_true
  refine ⟨_, Writer.markLabel_eq hnone, h.regions.congr rfl rfl, fun l' => ?_, h.targets, ?_⟩
  · rw [LabelTable.isPlaced_place hplace, ← h.places, Registry.find?_insert]
    by_cases heq : l' = l
    · rw [if_pos heq, decide_eq_true heq]
      rfl
    · rw [if_neg heq, decide_eq_false heq, Bool.false_or]
  · intro r hr hreachable l' hl'
    obtain ⟨slots, hslots⟩ := h.reached r hr hreachable l' hl'
    exact ⟨slots, hslots.place hplace⟩

/-- Only the regions change in both books. -/
theorem withRegions (h : Laid labels regions records w) {w' : Writer} (hregions : RegionsAgree regions' w')
    (hlabels : w'.labels = w.labels) (hfixups : w'.fixups = w.fixups) :
    Laid labels regions' records w' := by
  refine ⟨hregions, ?_, ?_, h.reached⟩
  · rw [hlabels]
    exact h.places
  · rw [hfixups]
    exact h.targets

theorem endRegion (h : Laid labels regions records w) {region : Region} {o : OpenRegion}
    (hend : regions.endRegion region = .ok (o, regions')) :
    ∃ w', CodeSink.endRegion region w = .ok () w' ∧ Laid labels regions' records w' := by
  obtain ⟨w', hok, hlabels, hfixups, hregions⟩ := h.regions.endRegion hend
  exact ⟨w', hok, h.withRegions hregions hlabels hfixups⟩

theorem beginHandler (h : Laid labels regions records w) (g : TypeGraph) {tryRegion region : Region}
    {kind : RegionKind} (hbegin : regions.beginHandler tryRegion kind = .ok (region, regions')) :
    ∃ w', CodeSink.beginRegion g region kind (some tryRegion) w = .ok () w' ∧
      Laid labels regions' records w' := by
  obtain ⟨w', hok, hlabels, hfixups, hregions⟩ := h.regions.beginHandler g hbegin
  exact ⟨w', hok, h.withRegions hregions hlabels hfixups⟩

/-- **`Laid.step`** — every step changes both books alike; the writer refuses none of its calls. -/
theorem step {op : Operation} {b b' : Builder Writer} (hstep : Step op b b')
    (h : Laid b.draft.labels b.draft.regions b.draft.records b.sink) :
    Laid b'.draft.labels b'.draft.regions b'.draft.records b'.sink := by
  cases hstep with
  | declareLocal => exact h
  | defineLabel => exact h.define
  | addResultTypes =>
    rw [Draft.addResultTypes_eq]
    exact h
  | report => exact h
  | instruction hinsn hvirtual hok hsink =>
    cases hsink
    rw [Draft.addResultTypes_eq]
    exact h.emit _ _ _
  | instructionRefused hsink => cases hsink
  | @branch d w w' b j hb hj hsink =>
    cases hsink
    obtain ⟨late, hcommit, -, -⟩ := Draft.commitBranch_eq b j (d.note (.emitted ⟨.branch b, d.stack⟩))
    rw [hcommit]
    exact h.branch hj
  | branchRefused hsink => cases hsink
  | place hop hfree hplace hsink =>
    obtain ⟨w', hok, hlaid⟩ := h.place hplace
    cases hok.symm.trans hsink
    exact hlaid
  | placeRefused hop hplace hsink =>
    obtain ⟨w', hok, -⟩ := h.place hplace
    cases hok.symm.trans hsink
  | beginTry hfree hbegin hsink =>
    cases hsink
    exact h.define.withRegions (h.regions.beginTry hbegin) rfl rfl
  | beginTryRefused hbegin hsink => cases hsink
  | beginHandler hop hfree hbetween hbegin hsink =>
    obtain ⟨w', hok, hlaid⟩ := h.beginHandler _ hbegin
    cases hok.symm.trans hsink
    exact hlaid
  | beginHandlerRefused hbetween hbegin hsink =>
    obtain ⟨w', hok, -⟩ := h.beginHandler _ hbegin
    cases hok.symm.trans hsink
  | endHandler hfree hkind hdead hend hsink =>
    obtain ⟨w', hok, hlaid⟩ := h.endRegion hend
    cases hok.symm.trans hsink
    exact hlaid
  | endTry hfree hblock hend hsink hplace hmark =>
    obtain ⟨w₁, hok, hlaid⟩ := h.endRegion hend
    cases hok.symm.trans hsink
    obtain ⟨w', hok', hlaid'⟩ := hlaid.place hplace
    cases hok'.symm.trans hmark
    exact hlaid'
  | endTryUnplaced hblock hend hsink =>
    obtain ⟨w', hok, hlaid⟩ := h.endRegion hend
    cases hok.symm.trans hsink
    exact hlaid
  | endTryRefused hblock hend hsink hplace hmark =>
    obtain ⟨w₁, hok, hlaid⟩ := h.endRegion hend
    cases hok.symm.trans hsink
    obtain ⟨w', hok', -⟩ := hlaid.place hplace
    cases hok'.symm.trans hmark
  | endRefused hdead hend hsink =>
    obtain ⟨w', hok, -⟩ := h.endRegion hend
    cases hok.symm.trans hsink

end Laid

/-! ## § Finished bodies -/

namespace Session

variable {g : TypeGraph} {system : SystemTypes} {method : MethodId}

theorem laid_run (g : TypeGraph) (system : SystemTypes) (method : MethodId) (ops : List Operation) :
    Laid ((start g system method Writer.empty).run ops).builder.draft.labels
      ((start g system method Writer.empty).run ops).builder.draft.regions
      ((start g system method Writer.empty).run ops).builder.draft.records
      ((start g system method Writer.empty).run ops).builder.sink := by
  have hops : (start g system method Writer.empty).Admits (fun _ _ => True) ops := admits_true _ ops
  refine run_induction (fun s => Laid s.builder.draft.labels s.builder.draft.regions
    s.builder.draft.records s.builder.sink) (fun s op _ hs => ?_) ?_ hops
  · exact call_induction
      (fun b => Laid b.draft.labels b.draft.regions b.draft.records b.sink)
      (fun b b' hstep _ => Laid.step hstep) hs
  · show Laid (Draft.start g system method).labels (Draft.start g system method).regions
      (Draft.start g system method).records Writer.empty
    rw [Draft.labels_start, Draft.regions_start, Draft.records_start]
    refine ⟨⟨.nil, List.nodup_nil, by simp, ?_, ?_, by simp, by simp⟩, fun _ => rfl, rfl, by simp⟩
    · exact fun r => iff_of_false (by simp [Writer.empty, Registry.find?]) (by simp)
    · exact fun r => iff_of_false (by simp [Writer.empty, Registry.find?]) (by simp)

/-- **`layout`** — in a body that the builder calls finished no region is open in the writer, and every
target of a branch that can be reached has a place.  The body can be laid out exactly if so does every
target of a dead branch. -/
theorem layout {ops : List Operation} {code : FinishedCode Writer}
    (hfinish : ((start g system method Writer.empty).run ops).builder.finish = .ok code) :
    code.sink.unclosed? = none ∧
    (∀ r ∈ code.records, r.stackBefore.isReachable = true → ∀ l ∈ r.item.targets,
      (code.sink.labels.find? l).isSome = true) ∧
    ((∃ body, code.sink.finish = .ok body) ↔
      ∀ r ∈ code.records, r.stackBefore = .unreachable → ∀ l ∈ r.item.targets,
        (code.sink.labels.find? l).isSome = true) := by
  have hlaid := laid_run g system method ops
  obtain ⟨hopened, -, hunplaced, rfl⟩ := Builder.finish_ok hfinish
  generalize ((start g system method Writer.empty).run ops).builder = b at hlaid hopened hunplaced ⊢
  have hclosed : b.sink.unclosed? = none := by
    have hblocks : b.sink.blocks.latest? = none := by
      refine Registry.latest?_eq_none fun r => ?_
      rw [← Option.not_isSome_iff_eq_none, hlaid.regions.blocks, hopened]
      simp
    have hhandlers : b.sink.handlers.latest? = none := by
      refine Registry.latest?_eq_none fun r => ?_
      rw [← Option.not_isSome_iff_eq_none, hlaid.regions.handlers, hopened]
      simp
    rw [Writer.unclosed?, hblocks, hhandlers]
    rfl
  have hplaced : ∀ r ∈ b.draft.records, r.stackBefore.isReachable = true → ∀ l ∈ r.item.targets,
      (b.sink.labels.find? l).isSome = true := by
    intro r hr hreachable l hl
    obtain ⟨slots, hslots⟩ := hlaid.reached r (Array.mem_toList_iff.mpr hr) hreachable l hl
    rw [hlaid.places]
    exact LabelTable.isPlaced_of_unplaced hunplaced hslots
  refine ⟨hclosed, hplaced, ?_⟩
  rw [Writer.finish_ok_iff hclosed, hlaid.targets]
  constructor
  · intro hall r hr _ l hl
    exact hall l (List.mem_flatMap.mpr ⟨r, Array.mem_toList_iff.mpr hr, hl⟩)
  · intro hdead l hl
    obtain ⟨r, hr, hl⟩ := List.mem_flatMap.mp hl
    have hr := Array.mem_toList_iff.mp hr
    cases hstack : r.stackBefore with
    | unreachable => exact hdead r hr hstack l hl
    | reachable slots => exact hplaced r hr (by rw [hstack]; rfl) l hl

end Session

/-! ## § Dead branches -/

namespace Sample

/-- A loop, followed by the same branch in dead code. -/
def loopTwice : List Operation :=
  [.defineLabel, .markLabel ⟨0⟩, .branch (.br ⟨0⟩), .branch (.br ⟨0⟩)]

theorem layout_loopTwice :
    ∃ code body, ((Session.start graph system method Writer.empty).run loopTwice).builder.finish = .ok code ∧
      code.sink.finish = .ok body := by
  have hdead : ((Session.start graph system method Writer.empty).run loopTwice).builder.finish.toOption.map
      (fun code => decide (∀ r ∈ code.records, r.stackBefore = .unreachable → ∀ l ∈ r.item.targets,
        (code.sink.labels.find? l).isSome = true)) = some true := by
    decide +kernel
  cases hfinish : ((Session.start graph system method Writer.empty).run loopTwice).builder.finish with
  | error e =>
    rw [hfinish] at hdead
    cases hdead
  | ok code =>
    rw [hfinish] at hdead
    obtain ⟨body, hbody⟩ := (Session.layout hfinish).2.2.mpr (of_decide_eq_true (Option.some.inj hdead))
    exact ⟨code, body, rfl, hbody⟩

/-- Dead code that jumps to a label without a place. -/
def deadJump : List Operation := [.defineLabel, .branch .ret, .branch (.br ⟨0⟩)]

/-- The builder calls the body finished, and the writer cannot lay it out. -/
theorem deadJump_unfinished :
    (Session.start graph system method Writer.empty).Admits Session.Owns deadJump ∧
      ((Session.start graph system method Writer.empty).run deadJump).builder.finish.toOption.map
        (fun code => code.sink.finish) = some (.error (.unknownLabel ⟨0⟩)) := by
  decide +kernel

end Sample

end ManagedCode
