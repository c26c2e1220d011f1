/-
# ManagedCode.Proofs.Builder.Stream — what a builder sends is well formed by itself.

A stream of events can be judged without the builder that sent it: which regions are open follows from the
regions begun and ended so far, and what may stand there follows from their kinds.  `WellFormed` is that
judgement.  The builder keeps the pending qualifier, the state of the labels and the open regions apart from
the stream; `Streams` says how each of them answers for a part of it, and every step of an operation, refused
or not, carries it on.
-/
import ManagedCode.Proofs.Builder.Refusal

namespace ManagedCode

/-! ## § A stream on its own -/

namespace SinkEvent

/-- The instruction that the event sends. -/
def item? : SinkEvent → Option CodeItem
  | .code item => some item
  | _ => none

/-- The regions that are open after the event, innermost first: those that were open, and the one that
begins, without the one that ends. -/
def reopen (opened : List (Region × RegionKind)) : SinkEvent → List (Region × RegionKind)
  | .beginRegion r kind => (r, kind) :: opened
  | .endRegion r => opened.filter fun p => p.1 ≠ r
  | _ => opened

end SinkEvent

/-- **`openAfter`** — the regions that have begun in a list of events and not ended, innermost first. -/
def openAfter (events : List SinkEvent) : List (Region × RegionKind) := events.foldl SinkEvent.reopen []

/-- **`StandsIn`** — where a branch may stand, by the kinds of the regions around it, innermost first. -/
def Branch.StandsIn (kinds : List RegionKind) : Branch Label → Prop
  | .ret => kinds = []
  | .endfinally => kinds.head? = some .finallyHandler ∨ kinds.head? = some .faultHandler
  | .endfilter => kinds.head? = some .filterBlock
  -- Protected blocks in between do not matter, any other handler does.
  | .rethrow => ∃ exception, kinds.find? (· ≠ .tryBlock) = some (.catchHandler exception)
  | _ => True

/-- Every `constrained.` of the stream is followed by its `callvirt`; the last event may still wait for it. -/
def Qualified (events : List SinkEvent) (waits : Option TypeId) : Prop :=
  ∀ i t, events[i]? = some (.code (.straight (.constrained t))) →
    (∃ m, events[i + 1]? = some (.code (.straight (.callvirt m)))) ∨
      (i + 1 = events.length ∧ waits = some t)

/-- Every branch of the stream stands where it may. -/
def Standing (events : List SinkEvent) : Prop :=
  ∀ i b, events[i]? = some (.code (.branch b)) →
    Branch.StandsIn ((openAfter (events.take i)).map Prod.snd) b

/-- **`WellFormed`** — a finished stream and the records of what was sent. -/
structure WellFormed (events : List SinkEvent) (records : List InstructionRecord) : Prop where
  /-- Instructions and branches are exactly those that were recorded, in order. -/
  recorded : events.filterMap SinkEvent.item? = records.map InstructionRecord.item
  /-- A qualifier is followed by the call that it qualifies, without any event in between. -/
  qualified : ∀ i t, events[i]? = some (.code (.straight (.constrained t))) →
    ∃ m, events[i + 1]? = some (.code (.straight (.callvirt m)))
  marked : ∀ l, events.count (.label l) ≤ 1
  targeted : ∀ r ∈ records, r.stackBefore.isReachable = true → ∀ l ∈ r.item.targets,
    events.count (.label l) = 1
  standing : Standing events

/-! ### One more event -/

theorem openAfter_concat (events : List SinkEvent) (event : SinkEvent) :
    openAfter (events ++ [event]) = event.reopen (openAfter events) := by
  rw [openAfter, List.foldl_append]
  rfl

theorem getElem?_concat_event {events : List SinkEvent} {event event' : SinkEvent} {i : Nat}
    (h : (events ++ [event])[i]? = some event') :
    (i < events.length ∧ events[i]? = some event') ∨ (i = events.length ∧ event = event') := by
  rw [List.getElem?_append] at h
  split at h
  · rename_i hlt
    exact .inl ⟨hlt, h⟩
  · have hlt := (List.getElem?_eq_some_iff.mp h).1
    rw [List.length_singleton] at hlt
    have hlast : i = events.length := by omega
    rw [hlast, Nat.sub_self] at h
    cases h
    exact .inr ⟨hlast, rfl⟩

/-- Where a qualifier waits the next event is a virtual call, and where the next event is a qualifier it
waits. -/
theorem Qualified.concat {events : List SinkEvent} {waits waits' : Option TypeId} {event : SinkEvent}
    (h : Qualified events waits)
    (hcall : waits ≠ none → ∃ m, event = .code (.straight (.callvirt m)))
    (hwaits : ∀ t, event = .code (.straight (.constrained t)) → waits' = some t) :
    Qualified (events ++ [event]) waits' := by
  intro i t hi
  rcases getElem?_concat_event hi with ⟨hlt, hi⟩ | ⟨hlast, hevent⟩
  · rcases h i t hi with ⟨m, hm⟩ | ⟨hlast, hsome⟩
    · left
      have hnext := (List.getElem?_eq_some_iff.mp hm).1
      exact ⟨m, by rw [List.getElem?_append_left hnext, hm]⟩
    · left
      obtain ⟨m, rfl⟩ := hcall (by simp [hsome])
      exact ⟨m, by rw [hlast, List.getElem?_concat_length]⟩
  · right
    rw [List.length_append, List.length_singleton]
    exact ⟨by omega, hwaits t hevent⟩

theorem Standing.concat {events : List SinkEvent} {event : SinkEvent} (h : Standing events)
    (hbranch : ∀ b, event = .code (.branch b) → Branch.StandsIn ((openAfter events).map Prod.snd) b) :
    Standing (events ++ [event]) := by
  intro i b hi
  rcases getElem?_concat_event hi with ⟨hlt, hi⟩ | ⟨hlast, hevent⟩
  · rw [List.take_append_of_le_length (by omega)]
    exact h i b hi
  · rw [hlast, List.take_left]
    exact hbranch b hevent

/-! ## § The regions of the tracker -/

namespace RegionTracker

/-- The open regions with their kinds. -/
def outline (t : RegionTracker) : List (Region × RegionKind) := t.opened.map fun o => (o.region, o.kind)

/-- Regions are numbered as they open, so no number is met twice. -/
def Numbered (t : RegionTracker) : Prop :=
  t.outline.Pairwise (fun p q => q.1.index < p.1.index) ∧ ∀ p ∈ t.outline, p.1.index < t.next

theorem outline_beginTry {t t' : RegionTracker} {endLabel : Label} {region : Region}
    (h : t.beginTry endLabel = .ok (region, t')) :
    t'.outline = (region, .tryBlock) :: t.outline ∧ region.index = t.next ∧ t'.next = t.next + 1 := by
  obtain ⟨-, rfl, rfl⟩ := beginTry_ok h
  exact ⟨rfl, rfl, rfl⟩

theorem outline_beginHandler {t t' : RegionTracker} {tryRegion region : Region} {kind : RegionKind}
    (h : t.beginHandler tryRegion kind = .ok (region, t')) :
    t'.outline = (region, kind) :: t.outline ∧ region.index = t.next ∧ t'.next = t.next + 1 := by
  obtain ⟨o, rest, hopened, -, -, -, rfl, rfl⟩ := beginHandler_ok h
  refine ⟨?_, rfl, rfl⟩
  -- The block counts one handler more, which the outline does not show.
  simp only [outline, hopened, List.map_cons]
  rfl

theorem outline_endRegion {t t' : RegionTracker} {region : Region} {o : OpenRegion}
    (h : t.endRegion region = .ok (o, t')) :
    t.outline = (region, o.kind) :: t'.outline ∧ t'.next = t.next := by
  obtain ⟨hend, hnext, rest, hopened, hrest⟩ := endRegion_ok h
  obtain ⟨rest', hopened', hregion, -⟩ := checkEnd_ok hend
  refine ⟨?_, hnext⟩
  rcases hrest with hsame | ⟨p, outer, -, rfl, hwaits⟩
  · rw [outline, outline, hopened, hsame, List.map_cons, hregion]
  · rw [outline, outline, hopened, hwaits, List.map_cons, List.map_cons, List.map_cons, hregion]

theorem Numbered.begin {t t' : RegionTracker} (h : t.Numbered) {region : Region} {kind : RegionKind}
    (houtline : t'.outline = (region, kind) :: t.outline) (hregion : region.index = t.next)
    (hnext : t'.next = t.next + 1) : t'.Numbered := by
  refine ⟨?_, ?_⟩
  · rw [houtline, List.pairwise_cons]
    refine ⟨fun p hp => ?_, h.1⟩
    show p.1.index < region.index
    rw [hregion]
    exact h.2 p hp
  · rw [houtline, List.forall_mem_cons]
    refine ⟨?_, fun p hp => ?_⟩
    · show region.index < t'.next
      omega
    · have hp := h.2 p hp
      omega

theorem Numbered.end {t t' : RegionTracker} (h : t.Numbered) {region : Region} {kind : RegionKind}
    (houtline : t.outline = (region, kind) :: t'.outline) (hnext : t'.next = t.next) : t'.Numbered := by
  rw [Numbered, houtline, List.pairwise_cons, List.forall_mem_cons] at h
  rw [Numbered, hnext]
  exact ⟨h.1.2, h.2.2⟩

/-- Ending the innermost region leaves the ones around it. -/
theorem Numbered.reopen_end {t t' : RegionTracker} (h : t.Numbered) {region : Region} {kind : RegionKind}
    (houtline : t.outline = (region, kind) :: t'.outline) :
    (SinkEvent.endRegion region).reopen t.outline = t'.outline := by
  have hother : ∀ p ∈ t'.outline, p.1 ≠ region := by
    intro p hp heq
    rw [Numbered, houtline, List.pairwise_cons] at h
    have hlt : p.1.index < region.index := h.1.1 p hp
    rw [heq] at hlt
    exact Nat.lt_irrefl _ hlt
  show t.outline.filter (fun p => p.1 ≠ region) = t'.outline
  rw [houtline, List.filter_cons_of_neg (by simp), List.filter_eq_self]
  intro p hp
  simpa using hother p hp

end RegionTracker

/-- What the tracker lets stand is what may stand among the regions of the stream. -/
theorem Draft.standsIn_of_mayStand {d : Draft} {b : Branch Label} (h : d.mayStand b = true) :
    b.StandsIn (d.regions.outline.map Prod.snd) := by
  have hkinds : d.regions.outline.map Prod.snd = d.regions.opened.map OpenRegion.kind := by
    simp [RegionTracker.outline]
  rw [hkinds]
  cases b with
  | ret =>
    rw [mayStand, Option.isNone_map, RegionTracker.innermost?, Option.isNone_iff_eq_none,
      List.head?_eq_none_iff] at h
    show d.regions.opened.map OpenRegion.kind = []
    rw [h, List.map_nil]
  | endfinally =>
    rw [mayStand, Option.any_eq_true] at h
    obtain ⟨kind, hkind, hexclusive⟩ := h
    show (d.regions.opened.map OpenRegion.kind).head? = _ ∨ (d.regions.opened.map OpenRegion.kind).head? = _
    rw [List.head?_map, ← RegionTracker.innermost?, hkind]
    cases kind with
    | finallyHandler => exact .inl rfl
    | faultHandler => exact .inr rfl
    | _ => cases hexclusive
  | endfilter =>
    rw [mayStand, beq_iff_eq] at h
    show (d.regions.opened.map OpenRegion.kind).head? = _
    rw [List.head?_map]
    exact h
  | rethrow =>
    rw [mayStand, Option.any_eq_true] at h
    obtain ⟨kind, hkind, hcatch⟩ := h
    have hhandler : (fun kind => decide (kind ≠ RegionKind.tryBlock)) = RegionKind.isHandler := by
      funext kind
      cases kind <;> rfl
    show ∃ exception, (d.regions.opened.map OpenRegion.kind).find? _ = _
    rw [hhandler, ← RegionTracker.enclosingHandler?, hkind]
    cases kind with
    | catchHandler exception => exact ⟨exception, rfl⟩
    | _ => cases hcatch
  | _ => trivial

/-! ## § The stream of a draft -/

/-- **`Streams`** — the draft answers for the stream: its records for the instructions, its qualifier for the
last event, its labels for the marks and its regions for those that the stream leaves open. -/
structure Streams (events : List SinkEvent) (d : Draft) : Prop where
  recorded : events.filterMap SinkEvent.item? = d.records.toList.map InstructionRecord.item
  qualified : Qualified events d.constrained
  marked : ∀ l, events.count (.label l) = if d.labels.isPlaced l then 1 else 0
  reached : ∀ r ∈ d.records, r.stackBefore.isReachable = true → ∀ l ∈ r.item.targets,
    ∃ slots, d.labels.Records l slots
  opened : openAfter events = d.regions.outline
  numbered : d.regions.Numbered
  standing : Standing events

namespace Streams

variable {events : List SinkEvent} {d d' : Draft}

theorem start (g : TypeGraph) (system : SystemTypes) (method : MethodId) :
    Streams [] (Draft.start g system method) where
  recorded := by
    rw [Draft.records_start]
    rfl
  qualified i t hi := by cases hi
  marked l := by
    rw [Draft.labels_start]
    rfl
  reached := by simp
  opened := by
    rw [Draft.regions_start]
    rfl
  numbered := by
    rw [Draft.regions_start]
    exact ⟨List.Pairwise.nil, by simp [RegionTracker.outline]⟩
  standing i b hi := by cases hi

/-- Nothing is sent, and labels are at most defined. -/
theorem keep (h : Streams events d) (hrecords : d'.records = d.records)
    (hconstrained : d'.constrained = d.constrained) (hregions : d'.regions = d.regions)
    (hlabels : d'.labels = d.labels ∨ d'.labels = d.labels.define.2) : Streams events d' := by
  have hplaced : ∀ l, d'.labels.isPlaced l = d.labels.isPlaced l := by
    intro l
    rcases hlabels with hsame | hdefine
    · rw [hsame]
    · rw [hdefine, LabelTable.isPlaced_define]
  have hkept : ∀ {l slots}, d.labels.Records l slots → d'.labels.Records l slots := by
    intro l slots hl
    rcases hlabels with hsame | hdefine
    · rwa [hsame]
    · rw [hdefine]
      exact hl.define
  refine ⟨hrecords ▸ h.recorded, hconstrained ▸ h.qualified, fun l => ?_, ?_, hregions ▸ h.opened,
    hregions ▸ h.numbered, h.standing⟩
  · rw [hplaced]
    exact h.marked l
  · intro r hr hreachable l hl
    rw [hrecords] at hr
    obtain ⟨slots, hslots⟩ := h.reached r hr hreachable l hl
    exact ⟨slots, hkept hslots⟩

/-- An instruction or a branch is sent and recorded. -/
theorem code (h : Streams events d) {item : CodeItem}
    (hrecords : d'.records = d.records.push ⟨item, d.stack⟩) (hregions : d'.regions = d.regions)
    (hplaced : ∀ l, d'.labels.isPlaced l = d.labels.isPlaced l)
    (hkept : ∀ {l slots}, d.labels.Records l slots → d'.labels.Records l slots)
    (htargets : d.stack.isReachable = true → ∀ l ∈ item.targets, ∃ slots, d'.labels.Records l slots)
    (hcall : d.constrained ≠ none → ∃ m, item = .straight (.callvirt m))
    (hwaits : ∀ t, item = .straight (.constrained t) → d'.constrained = some t)
    (hstands : ∀ b, item = .branch b → d.mayStand b = true) : Streams (events ++ [.code item]) d' := by
  refine ⟨?_, ?_, fun l => ?_, ?_, ?_, hregions ▸ h.numbered, ?_⟩
  · rw [hrecords, List.filterMap_append, h.recorded, Array.toList_push, List.map_append]
    rfl
  · refine h.qualified.concat (fun hwaiting => ?_) (fun t ht => ?_)
    · obtain ⟨m, rfl⟩ := hcall hwaiting
      exact ⟨m, rfl⟩
    · cases ht
      exact hwaits t rfl
  · rw [hplaced, ← h.marked l, List.count_append]
    rfl
  · intro r hr hreachable l hl
    rw [hrecords] at hr
    rcases Array.mem_push.mp hr with hr | rfl
    · obtain ⟨slots, hslots⟩ := h.reached r hr hreachable l hl
      exact ⟨slots, hkept hslots⟩
    · exact htargets hreachable l hl
  · rw [openAfter_concat, hregions]
    exact h.opened
  · refine h.standing.concat fun b hb => ?_
    cases hb
    rw [h.opened]
    exact Draft.standsIn_of_mayStand (hstands b rfl)

/-- A label is marked where it is placed. -/
theorem mark (h : Streams events d) {g : TypeGraph} {l : Label} {fallThrough resume : AbstractStack}
    (hplace : d.labels.place g l fallThrough = .ok (resume, d'.labels)) (hfree : d.constrained = none)
    (hrecords : d'.records = d.records) (hregions : d'.regions = d.regions) :
    Streams (events ++ [.label l]) d' := by
  refine ⟨?_, ?_, fun l' => ?_, ?_, ?_, hregions ▸ h.numbered, ?_⟩
  · rw [hrecords, List.filterMap_append, h.recorded]
    exact List.append_nil _
  · exact h.qualified.concat (fun hwaits => absurd hfree hwaits) (fun t ht => by cases ht)
  · rw [List.count_append, h.marked l', LabelTable.isPlaced_place hplace]
    by_cases heq : l' = l
    · subst heq
      rw [LabelTable.not_isPlaced_of_place hplace]
      simp
    · have hne : (SinkEvent.label l == SinkEvent.label l') = false := by simp [Ne.symm heq]
      simp [heq, List.count_cons, hne]
  · intro r hr hreachable target htarget
    rw [hrecords] at hr
    obtain ⟨slots, hslots⟩ := h.reached r hr hreachable target htarget
    exact ⟨slots, hslots.place hplace⟩
  · rw [openAfter_concat, hregions]
    exact h.opened
  · exact h.standing.concat fun b hb => by cases hb

/-- Regions begin and end where no qualifier waits. -/
theorem region (h : Streams events d) {event : SinkEvent} (hfree : d.constrained = none)
    (hevent : event.item? = none) (hlabel : ∀ l, event ≠ .label l)
    (hrecords : d'.records = d.records) (hlabels : d'.labels = d.labels)
    (hopened : event.reopen d.regions.outline = d'.regions.outline) (hnumbered : d'.regions.Numbered) :
    Streams (events ++ [event]) d' := by
  have hcode : ∀ item, event ≠ .code item := by
    rintro item rfl
    cases hevent
  refine ⟨?_, ?_, fun l => ?_, ?_, ?_, hnumbered, ?_⟩
  · rw [hrecords, List.filterMap_append, h.recorded, List.filterMap_cons_none hevent]
    exact List.append_nil _
  · exact h.qualified.concat (fun hwaits => absurd hfree hwaits) (fun t ht => absurd ht (hcode _))
  · have hother : (event == SinkEvent.label l) = false := by simp [hlabel l]
    rw [hlabels, ← h.marked l, List.count_append, List.count_cons, hother]
    rfl
  · intro r hr
    rw [hrecords] at hr
    rw [hlabels]
    exact h.reached r hr
  · rw [openAfter_concat, h.opened, hopened]
  · exact h.standing.concat fun b hb => absurd hb (hcode _)

end Streams

/-! ## § Every step keeps the stream -/

/-- A call on the recording adds its event. -/
theorem Recording.push_ok {event : SinkEvent} {r r' : Recording} (h : Recording.push event r = .ok () r') :
    r'.events.toList = r.events.toList ++ [event] := by
  cases h
  exact Array.toList_push

namespace Streams

variable {op : Operation}

theorem instruction {d : Draft} {events : List SinkEvent} (h : Streams events d) {insn : Instruction}
    {after : AbstractStack} (hcall : d.constrained ≠ none → insn.isVirtualCall = true) :
    Streams (events ++ [.code (.straight insn)])
      (((d.addResultTypes insn).note (.emitted ⟨.straight insn, d.stack⟩)).commitInstruction insn after) := by
  rw [Draft.addResultTypes_eq]
  apply h.code
  case hrecords => rfl
  case hregions => rfl
  case hplaced => exact fun _ => rfl
  case hkept => exact id
  case htargets => exact fun _ l hl => by cases hl
  case hcall =>
    intro hwaits
    cases insn with
    | callvirt m => exact ⟨m, rfl⟩
    | _ => cases hcall hwaits
  case hwaits =>
    intro t ht
    cases ht
    rfl
  case hstands => exact fun b hb => by cases hb

/-- Where a branch can be reached, it leaves a record at each of its targets. -/
theorem branch {d : Draft} {events : List SinkEvent} (h : Streams events d) {b : Branch Label}
    {j : AbstractStack.Jump} (hj : d.checkBranch b = .ok j) :
    Streams (events ++ [.code (.branch b)])
      ((d.note (.emitted ⟨.branch b, d.stack⟩)).commitBranch b j) := by
  obtain ⟨hfree, hstands, hjump, hedges⟩ := Draft.checkBranch_ok hj
  obtain ⟨late, hcommit, -, -⟩ := Draft.commitBranch_eq b j (d.note (.emitted ⟨.branch b, d.stack⟩))
  rw [hcommit]
  apply h.code
  case hrecords => rfl
  case hregions => rfl
  case hplaced => exact LabelTable.isPlaced_recordEdges _ _ _
  case hkept => exact fun hl => hl.recordEdges _ _
  case htargets =>
    intro hreachable l hl
    have hdelivers : ∃ found, j.delivered = .reachable found := by
      cases hstack : d.stack with
      | unreachable =>
        rw [hstack] at hreachable
        cases hreachable
      | reachable slots =>
        rw [hstack] at hjump
        exact AbstractStack.jump_delivers hjump
    obtain ⟨found, hfound⟩ := hdelivers
    obtain ⟨state, hstate, -⟩ := LabelTable.checkEdge_ok_iff.mp (hedges l hl)
    obtain ⟨slots, hslots, -⟩ := LabelTable.records_of_edge ⟨state, hstate⟩ found hl
    refine ⟨slots, ?_⟩
    rw [hfound]
    exact hslots
  case hcall => exact fun hwaits => absurd hfree hwaits
  case hwaits => exact fun t ht => by cases ht
  case hstands =>
    intro b' hb'
    cases hb'
    exact hstands

/-- **`Streams.step`** — whatever a step sends, the draft answers for it.  The recording refuses nothing, and
what the table does not place is not sent. -/
theorem step {b b' : Builder Recording} (hstep : Step op b b') (h : Streams b.sink.events.toList b.draft) :
    Streams b'.sink.events.toList b'.draft := by
  cases hstep with
  | declareLocal => exact h.keep rfl rfl rfl (.inl rfl)
  | defineLabel => exact h.keep rfl rfl rfl (.inr rfl)
  | addResultTypes =>
    rw [Draft.addResultTypes_eq]
    exact h.keep rfl rfl rfl (.inl rfl)
  | report => exact h.keep rfl rfl rfl (.inl rfl)
  | instruction _ hvirtual _ hsink =>
    rw [Recording.push_ok hsink]
    exact h.instruction hvirtual
  | branch _ hj hsink =>
    rw [Recording.push_ok hsink]
    exact h.branch hj
  | place _ hfree hplace hsink =>
    rw [Recording.push_ok hsink]
    exact h.mark hplace hfree rfl rfl
  | @beginTry d w w' region regions hfree hbegin hsink =>
    obtain ⟨houtline, hregion, hnext⟩ := RegionTracker.outline_beginTry hbegin
    have hdefined : Streams w.events.toList { d with labels := d.labels.define.2 } :=
      h.keep rfl rfl rfl (.inr rfl)
    rw [Recording.push_ok hsink]
    exact hdefined.region hfree rfl nofun rfl rfl houtline.symm (h.numbered.begin houtline hregion hnext)
  | beginHandler _ hfree _ hbegin hsink =>
    obtain ⟨houtline, hregion, hnext⟩ := RegionTracker.outline_beginHandler hbegin
    rw [Recording.push_ok hsink]
    exact h.region hfree rfl nofun rfl rfl houtline.symm (h.numbered.begin houtline hregion hnext)
  | endHandler hfree _ _ hend hsink =>
    obtain ⟨houtline, hnext⟩ := RegionTracker.outline_endRegion hend
    rw [Recording.push_ok hsink]
    exact h.region hfree rfl nofun rfl rfl (h.numbered.reopen_end houtline) (h.numbered.end houtline hnext)
  | @endTry d w w₁ w' region o regions resume labels hfree _ hend hsink hplace hmark =>
    obtain ⟨houtline, hnext⟩ := RegionTracker.outline_endRegion hend
    have hclosed : Streams w₁.events.toList { d with regions } := by
      rw [Recording.push_ok hsink]
      exact h.region hfree rfl nofun rfl rfl (h.numbered.reopen_end houtline) (h.numbered.end houtline hnext)
    rw [Recording.push_ok hmark]
    exact hclosed.mark hplace hfree rfl rfl
  | endTryUnplaced _ hend hsink _ hfree =>
    obtain ⟨houtline, hnext⟩ := RegionTracker.outline_endRegion hend
    rw [Recording.push_ok hsink]
    exact h.region hfree rfl nofun rfl rfl (h.numbered.reopen_end houtline) (h.numbered.end houtline hnext)
  | instructionRefused hsink => cases hsink
  | branchRefused hsink => cases hsink
  | placeRefused _ _ hsink => cases hsink
  | beginTryRefused _ hsink => cases hsink
  | beginHandlerRefused _ _ hsink => cases hsink
  | endTryRefused _ _ _ _ hmark => cases hmark
  | endRefused _ _ hsink => cases hsink

/-- **`Streams.reachable`** — callers come to no builder that does not answer for its stream. -/
theorem reachable {b : Builder Recording} (h : Builder.Reachable Recording.empty b) :
    Streams b.sink.events.toList b.draft := by
  induction h with
  | start g system method => exact start g system method
  | @call b op _ ih =>
    rw [← op.reached_perform]
    have hsteps := op.steps b
    generalize op.perform.reached b = b' at hsteps
    induction hsteps with
    | refl => exact ih
    | tail _ hlast ih => exact step hlast ih
  | regraph g _ ih => exact ih.keep rfl rfl rfl (.inl rfl)

end Streams

/-! ## § Finished streams -/

/-- **`stream_wellFormed`** — whatever operations have been made, refused ones included, what a finished
builder has sent is well formed. -/
theorem Builder.stream_wellFormed {b : Builder Recording} (hb : Reachable Recording.empty b)
    {code : FinishedCode Recording} (hfinish : b.finish = .ok code) :
    WellFormed code.sink.events.toList code.records.toList := by
  have h := Streams.reachable hb
  have hfree := unqualified_of_finish hfinish
  obtain ⟨-, -, hunplaced, rfl⟩ := finish_ok hfinish
  refine ⟨h.recorded, fun i t hi => ?_, fun l => ?_, fun r hr hreachable l hl => ?_, h.standing⟩
  · rcases h.qualified i t hi with hcall | ⟨-, hwaits⟩
    · exact hcall
    · rw [hfree] at hwaits
      cases hwaits
  · rw [h.marked l]
    split <;> omega
  · obtain ⟨slots, hslots⟩ := h.reached r (Array.mem_toList_iff.mp hr) hreachable l hl
    rw [h.marked l, LabelTable.isPlaced_of_unplaced hunplaced hslots, if_pos rfl]

namespace Sample

/-- A filter and the catch handler it guards, which throws the exception on; behind that a qualified call in
dead code.  The first return and the jump between the qualifier and its call are refused. -/
def onward : List Operation :=
  [.defineLabel, .beginTry, .branch .ret, .instruction .nop,
    .beginHandler ⟨0⟩ .filterBlock, .instruction .pop, .instruction (.ldcI4 1), .endRegion ⟨1⟩,
    .beginHandler ⟨0⟩ (.catchHandler system.exception), .instruction .pop, .branch .rethrow,
    .instruction (.constrained system.object), .branch (.br ⟨0⟩), .instruction (.callvirt method),
    .endRegion ⟨2⟩, .endRegion ⟨0⟩, .branch (.br ⟨0⟩), .markLabel ⟨0⟩, .branch .ret]

theorem wellFormed_onward : ∃ code,
    ((Session.start graph system method Recording.empty).run onward).builder.finish = .ok code ∧
    code.records.size = 11 ∧ WellFormed code.sink.events.toList code.records.toList := by
  have hsize : ((Session.start graph system method Recording.empty).run onward).builder.finish.toOption.map
      (fun code => code.records.size) = some 11 := by
    decide +kernel
  cases hfinish : ((Session.start graph system method Recording.empty).run onward).builder.finish with
  | error e =>
    rw [hfinish] at hsize
    cases hsize
  | ok code =>
    rw [hfinish] at hsize
    have hreachable : Builder.Reachable Recording.empty
        ((Session.start graph system method Recording.empty).run onward).builder :=
      Session.reachable_run (.start graph system method) onward
    exact ⟨code, rfl, Option.some.inj hsize, Builder.stream_wellFormed hreachable hfinish⟩

end Sample

end ManagedCode
