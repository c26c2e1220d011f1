/-
# ManagedCode.Proofs.Builder.Typing — finished bodies are consistently typed.

The builder verifies an instruction once, against the stack it has inferred for that point.  Every other
way to get there is only compared with that stack: the fall-through from the instruction before, and the
edges into the labels placed there.  The invariant (`Draft.Typed`) says of a body in the making that each
record verifies, that what follows it accepts its result as far as it has been emitted, and that labels
fit the points at which they stand.  Compatibility is transitive, so labels can be placed back to back;
and it survives the growth of the graph, so a record verifies in the graph that the body ends with.
-/
import ManagedCode.Proofs.Builder.Boundary
import ManagedCode.Proofs.Builder.Points

namespace ManagedCode

/-! ## § Items -/

namespace CodeItem

/-- The stacks after an item, at its targets and at the next instruction. -/
def run (g : TypeGraph) (ctx : MethodContext) (s : AbstractStack) :
    CodeItem → Except VerifierFault AbstractStack.Jump
  | .straight insn => (s.step g ctx insn).map fun after => ⟨after, after⟩
  | .branch b => s.jump g ctx b

/-- The type of a `constrained.` qualifier. -/
def constrained? : CodeItem → Option TypeId
  | .straight insn => insn.constrained?
  | .branch _ => none

/-- The graph knows what the item names, and has its result types. -/
def Known (g : TypeGraph) : CodeItem → Prop
  | .straight insn => insn.Known g
  | .branch _ => True

/-- The result type of the item is in the graph. -/
def HasResultTypes (g : TypeGraph) : CodeItem → Prop
  | .straight insn => g.HasResultTypes insn
  | .branch _ => True

theorem Known.extend {g g' : TypeGraph} (h : g.Extends g') {item : CodeItem} (hi : item.Known g) :
    item.Known g' := by
  cases item with
  | straight insn => exact Instruction.Known.extend h hi
  | branch => trivial

theorem HasResultTypes.extend {g g' : TypeGraph} (h : g.Extends g') {item : CodeItem}
    (hi : item.Known g) (hr : item.HasResultTypes g) : item.HasResultTypes g' := by
  cases item with
  | straight insn => exact TypeGraph.HasResultTypes.extend h hi hr
  | branch => trivial

theorem run_straight_ok_iff {g : TypeGraph} {ctx : MethodContext} {s : AbstractStack}
    {insn : Instruction} {j : AbstractStack.Jump} :
    (straight insn).run g ctx s = .ok j ↔ ∃ after, s.step g ctx insn = .ok after ∧ j = ⟨after, after⟩ := by
  rw [run]
  cases s.step g ctx insn with
  | error fault => simp [Except.map]
  | ok after => simp [Except.map, eq_comm]

/-- **`run_extend`** — an item that verified once verifies in every later graph and context. -/
theorem run_extend {g g' : TypeGraph} (h : g.Extends g') (hg : g.Closed) (hg' : g'.Closed)
    {ctx ctx' : MethodContext} (hctx : ctx.Extends ctx') (hknown : ctx.Known g) {item : CodeItem}
    (hi : item.Known g) (hr : item.HasResultTypes g) {s : AbstractStack} (hs : s.Known g)
    {j : AbstractStack.Jump} (hok : item.run g ctx s = .ok j) : item.run g' ctx' s = .ok j := by
  cases item with
  | straight insn =>
    obtain ⟨after, hstep, rfl⟩ := run_straight_ok_iff.mp hok
    exact run_straight_ok_iff.mpr
      ⟨after, AbstractStack.step_extend h hg hg' hctx hknown hi hr hs hstep, rfl⟩
  | branch b => exact AbstractStack.jump_extend h hg hg' hctx hknown hs hok

/-- Dead code is not checked, and leaves dead code behind. -/
theorem run_unreachable (g : TypeGraph) (ctx : MethodContext) (item : CodeItem) :
    item.run g ctx .unreachable = .ok ⟨.unreachable, .unreachable⟩ := by
  cases item <;> rfl

theorem run_known {g : TypeGraph} (hg : g.Closed) {ctx : MethodContext} (hknown : ctx.Known g)
    {item : CodeItem} (hi : item.Known g) (hr : item.HasResultTypes g) {s : AbstractStack}
    (hs : s.Known g) {j : AbstractStack.Jump} (hok : item.run g ctx s = .ok j) :
    j.delivered.Known g ∧ j.next.Known g := by
  cases item with
  | straight insn =>
    obtain ⟨after, hstep, rfl⟩ := run_straight_ok_iff.mp hok
    have hafter := AbstractStack.step_known hg hknown hi hr hs hstep
    exact ⟨hafter, hafter⟩
  | branch b => exact AbstractStack.jump_known hg hknown hs hok

/-- Where an item that is not terminal can be reached, so can the next one. -/
theorem run_next {g : TypeGraph} {ctx : MethodContext} {item : CodeItem} {s : AbstractStack}
    {j : AbstractStack.Jump} (hok : item.run g ctx s = .ok j) (hs : s.isReachable = true)
    (hitem : item.isTerminal = false) : ∃ slots, j.next = .reachable slots := by
  cases s with
  | unreachable => cases hs
  | reachable slots =>
    cases item with
    | straight insn =>
      obtain ⟨after, hstep, rfl⟩ := run_straight_ok_iff.mp hok
      obtain ⟨effect, out, -, -, rfl⟩ := AbstractStack.step_ok_iff.mp hstep
      exact ⟨out, rfl⟩
    | branch b =>
      obtain ⟨out, -, rfl⟩ := AbstractStack.jump_ok_iff.mp hok
      exact ⟨out, if_neg (Bool.eq_false_iff.mp hitem)⟩

/-- Where an item that jumps can be reached, so can its targets. -/
theorem run_delivered {g : TypeGraph} {ctx : MethodContext} {item : CodeItem} {s : AbstractStack}
    {j : AbstractStack.Jump} (hok : item.run g ctx s = .ok j) (hs : s.isReachable = true) {l : Label}
    (hl : l ∈ item.targets) : ∃ slots, j.delivered = .reachable slots := by
  cases s with
  | unreachable => cases hs
  | reachable slots =>
    cases item with
    | straight insn => cases hl
    | branch b => exact AbstractStack.jump_delivers hok

end CodeItem

/-! ## § Points of a body -/

namespace Draft

/-- The qualifier that waits at a point: the one just before it. -/
def qualifierAt (d : Draft) : Nat → Option TypeId
  | 0 => none
  | i + 1 => d.records[i]?.bind fun r => r.item.constrained?

/-- The context that the record at a point is verified in. -/
def contextAt (d : Draft) (i : Nat) : MethodContext := { d.context with constrained := d.qualifierAt i }

/-- The stack at a point: that of its record, or the current one where the next record will be. -/
def stackAt (d : Draft) (i : Nat) : AbstractStack :=
  (d.records[i]?.map InstructionRecord.stackBefore).getD d.stack

/-- No label that was placed in dead code has been reached later. -/
def Punctual (d : Draft) : Prop := ∀ l incoming, .lateEdge l incoming ∉ d.journal

/-- Late edges are all there is to warn of. -/
theorem punctual_iff {d : Draft} : d.Punctual ↔ ∀ entry ∈ d.journal, entry.severity ≠ .warn := by
  constructor
  · intro h entry hentry
    cases entry with
    | lateEdge l incoming => exact absurd hentry (h l incoming)
    | _ => intro hwarn; cases hwarn
  · intro h l incoming hentry
    exact h _ hentry rfl

instance (d : Draft) : Decidable d.Punctual := decidable_of_iff' _ punctual_iff

theorem stackAt_size (d : Draft) : d.stackAt d.records.size = d.stack := by
  simp [stackAt]

/-! ## § The invariant -/

/-- The graph is sound, and knows all that the draft mentions. -/
structure Known (d : Draft) : Prop where
  closed : d.graph.Closed
  lawful : d.graph.Lawful
  system : d.system.Known d.graph
  method : d.graph.KnowsMethod d.method
  arguments : ∀ t ∈ d.arguments, d.graph.Knows t
  locals : ∀ t ∈ d.locals, d.graph.Knows t
  stack : d.stack.Known d.graph
  recorded : ∀ {l slots}, d.labels.Records l slots → (AbstractStack.reachable slots).Known d.graph
  records : ∀ {i : Nat} {r : InstructionRecord}, d.records[i]? = some r →
    r.stackBefore.Known d.graph ∧ r.item.Known d.graph

/-- **`Verified`** — a record verifies, and its successors accept the result: the next point, should control
get there, and each target, which has a record of its own. -/
structure Verified (d : Draft) (i : Nat) (r : InstructionRecord) (j : AbstractStack.Jump) : Prop where
  run : r.item.run d.graph (d.contextAt i) r.stackBefore = .ok j
  results : r.item.HasResultTypes d.graph
  next : r.item.isTerminal = false →
    AbstractStack.isCompatible d.graph j.next (d.stackAt (i + 1)) = true
  targets : ∀ l ∈ r.item.targets, ∃ slots, d.labels.Records l slots ∧
    AbstractStack.isCompatible d.graph j.delivered (.reachable slots) = true

/-- **`Typed`** — every record that can be reached is verified, and what a label has recorded fits the point
it stands at. -/
structure Typed (d : Draft) : Prop where
  known : d.Known
  awaited : d.constrained = d.qualifierAt d.records.size
  reported : d.journal.filterMap JournalEntry.emitted? = d.records.toList.reverse
  verified : ∀ {i : Nat} {r : InstructionRecord}, d.records[i]? = some r →
    r.stackBefore.isReachable = true → ∃ j, d.Verified i r j
  placed : ∀ {l k}, d.position? l = some k → d.labels.isPlaced l = true ∧ k ≤ d.records.size ∧
    ∀ slots, d.labels.Records l slots →
      AbstractStack.isCompatible d.graph (.reachable slots) (d.stackAt k) = true

/-! ## § Points of a known draft -/

variable {d d' : Draft}

theorem Known.qualifierAt (h : d.Known) (i : Nat) : ∀ t ∈ d.qualifierAt i, d.graph.Knows t := by
  intro t ht
  cases i with
  | zero => cases ht
  | succ i =>
    obtain ⟨r, hr, hconstrained⟩ := Option.bind_eq_some_iff.mp ht
    have hitem := (h.records hr).2
    cases hcase : r.item with
    | branch b =>
      rw [hcase] at hconstrained
      cases hconstrained
    | straight insn =>
      rw [hcase] at hconstrained hitem
      cases insn with
      | constrained t' =>
        cases hconstrained
        exact hitem
      | _ => cases hconstrained

theorem Known.contextAt (h : d.Known) (i : Nat) : (d.contextAt i).Known d.graph where
  system := h.system
  arguments := h.arguments
  locals := h.locals
  returnType := (h.closed.method_known h.method).2.2
  constrained := h.qualifierAt i

theorem Known.stackAt (h : d.Known) (i : Nat) : (d.stackAt i).Known d.graph := by
  rw [Draft.stackAt]
  cases hr : d.records[i]? with
  | none => exact h.stack
  | some r => exact (h.records hr).1

/-! ## § Later drafts -/

/-- **`Continues`** — the later draft has all that the earlier one has: a record is verified in the same
context as before, and what fits a point still fits it. -/
structure Continues (d d' : Draft) : Prop where
  graph : d.graph.Extends d'.graph
  context : ∀ i < d.records.size, (d.contextAt i).Extends (d'.contextAt i)
  labels : d.labels.Follows d'.labels
  stack : ∀ {k}, k ≤ d.records.size → ∀ {slots}, (AbstractStack.reachable slots).Known d.graph →
    AbstractStack.isCompatible d.graph (.reachable slots) (d.stackAt k) = true →
    AbstractStack.isCompatible d'.graph (.reachable slots) (d'.stackAt k) = true

/-- **`Verified.carry`** — a record that is verified stays so. -/
theorem Verified.carry {i : Nat} {r : InstructionRecord} {j : AbstractStack.Jump} (h : d.Verified i r j)
    (hknown : d.Known) (hknown' : d'.Known) (hd : d.Continues d') (hr : d.records[i]? = some r)
    (hreachable : r.stackBefore.isReachable = true) : d'.Verified i r j := by
  obtain ⟨hstack, hitem⟩ := hknown.records hr
  have hi : i < d.records.size := (Array.getElem?_eq_some_iff.mp hr).1
  obtain ⟨hdelivered, hnext⟩ :=
    CodeItem.run_known hknown.closed (hknown.contextAt i) hitem h.results hstack h.run
  refine ⟨?_, h.results.extend hd.graph hitem, ?_, ?_⟩
  · exact CodeItem.run_extend hd.graph hknown.closed hknown'.closed (hd.context i hi) (hknown.contextAt i)
      hitem h.results hstack h.run
  · intro hterminal
    obtain ⟨slots, hslots⟩ := CodeItem.run_next h.run hreachable hterminal
    have hfits := h.next hterminal
    rw [hslots] at hfits hnext ⊢
    exact hd.stack hi hnext hfits
  · intro l hl
    obtain ⟨slots, hrecords, hfits⟩ := h.targets l hl
    refine ⟨slots, hd.labels.records hrecords, ?_⟩
    rw [AbstractStack.isCompatible_extend hd.graph hknown.closed hknown'.closed hdelivered
      (hknown.recorded hrecords)]
    exact hfits

/-- What a label has recorded fits its place as long as nothing moves it. -/
theorem Typed.placed_carry (h : d.Typed) (hd : d.Continues d') {l : Label} {k : Nat}
    (hk : d.position? l = some k) (hsize : d.records.size ≤ d'.records.size) :
    d'.labels.isPlaced l = true ∧ k ≤ d'.records.size ∧ ∀ slots, d'.labels.Records l slots →
      AbstractStack.isCompatible d'.graph (.reachable slots) (d'.stackAt k) = true := by
  obtain ⟨hplaced, hle, hfits⟩ := h.placed hk
  have hsame := hd.labels.placed hplaced
  refine ⟨?_, Nat.le_trans hle hsize, fun slots hslots => ?_⟩
  · rw [LabelTable.isPlaced, hsame]
    exact hplaced
  · rw [LabelTable.Records, hsame] at hslots
    exact hd.stack hle (h.known.recorded hslots) (hfits slots hslots)

/-! ## § What changes a draft -/

theorem stackAt_of_lt {k : Nat} (hk : k < d.records.size) (h : d'.records[k]? = d.records[k]?) :
    d'.stackAt k = d.stackAt k := by
  rw [Draft.stackAt, Draft.stackAt, h, Array.getElem?_eq_getElem hk]
  rfl

/-- More types and locals: records verify in the larger graph and context too. -/
theorem Typed.grow (h : d.Typed) {g : TypeGraph} (locals : Array TypeId) (hg : d.graph.Extends g)
    (hclosed : g.Closed) (hlawful : g.Lawful)
    (hlocals : ∀ {i : Nat} {t}, d.locals[i]? = some t → locals[i]? = some t)
    (hknown : ∀ t ∈ locals, g.Knows t) : Typed { d with graph := g, locals } := by
  have hd : d.Continues { d with graph := g, locals } := by
    refine ⟨hg, fun i _ => ?_, .refl _, ?_⟩
    · refine ⟨rfl, rfl, hlocals, ?_, rfl⟩
      show (g.method d.method).returnType = _
      rw [hg.method_eq]
      rfl
    · intro k _ slots hslots hfits
      show AbstractStack.isCompatible g _ (d.stackAt k) = true
      rw [AbstractStack.isCompatible_extend hg h.known.closed hclosed hslots (h.known.stackAt k)]
      exact hfits
  have hknown' : Known { d with graph := g, locals } :=
    { closed := hclosed
      lawful := hlawful
      system := fun t ht => hg.knows (h.known.system t ht)
      method := hg.knowsMethod h.known.method
      arguments := fun t ht => hg.knows (h.known.arguments t ht)
      locals := hknown
      stack := h.known.stack.extend hg
      recorded := fun hrecords => (h.known.recorded hrecords).extend hg
      records := fun hr => ⟨(h.known.records hr).1.extend hg, (h.known.records hr).2.extend hg⟩ }
  refine ⟨hknown', h.awaited, h.reported, ?_, fun hk => h.placed_carry hd hk (Nat.le_refl _)⟩
  intro i r hr hreachable
  obtain ⟨j, hj⟩ := h.verified hr hreachable
  exact ⟨j, hj.carry h.known hknown' hd hr hreachable⟩

/-- No more records: labels are defined or placed, and the current stack changes to one that accepts all
that the stack before accepted. -/
theorem Typed.settle (h : d.Typed) {labels : LabelTable} {regions : RegionTracker} {stack : AbstractStack}
    {maxStack : Nat} {journal : List JournalEntry} (hlabels : d.labels.Follows labels)
    (hrecorded : ∀ {l slots}, labels.Records l slots → (AbstractStack.reachable slots).Known d.graph)
    (hstack : stack.Known d.graph)
    (hmove : ∀ {slots}, (AbstractStack.reachable slots).Known d.graph →
      AbstractStack.isCompatible d.graph (.reachable slots) d.stack = true →
      AbstractStack.isCompatible d.graph (.reachable slots) stack = true)
    (hemitted : journal.filterMap JournalEntry.emitted? = d.journal.filterMap JournalEntry.emitted?)
    (hposition : ∀ {l k}, JournalEntry.position? l journal = some k → d.position? l = some k ∨
      (k = d.records.size ∧ labels.isPlaced l = true ∧ ∀ slots, labels.Records l slots →
        AbstractStack.isCompatible d.graph (.reachable slots) stack = true)) :
    Typed { d with labels, regions, stack, maxStack, journal } := by
  have hlast : Draft.stackAt { d with labels, regions, stack, maxStack, journal } d.records.size = stack :=
    stackAt_size { d with labels, regions, stack, maxStack, journal }
  have hd : d.Continues { d with labels, regions, stack, maxStack, journal } := by
    refine ⟨.refl _, fun i _ => ⟨rfl, rfl, fun ht => ht, rfl, rfl⟩, hlabels, ?_⟩
    intro k hk slots hslots hfits
    rcases Nat.lt_or_eq_of_le hk with hlt | rfl
    · have hsame : Draft.stackAt { d with labels, regions, stack, maxStack, journal } k = d.stackAt k :=
        stackAt_of_lt hlt rfl
      rw [hsame]
      exact hfits
    · rw [stackAt_size] at hfits
      rw [hlast]
      exact hmove hslots hfits
  have hknown' : Known { d with labels, regions, stack, maxStack, journal } :=
    { closed := h.known.closed
      lawful := h.known.lawful
      system := h.known.system
      method := h.known.method
      arguments := h.known.arguments
      locals := h.known.locals
      stack := hstack
      recorded := hrecorded
      records := h.known.records }
  refine ⟨hknown', h.awaited, hemitted.trans h.reported, ?_, ?_⟩
  · intro i r hr hreachable
    obtain ⟨j, hj⟩ := h.verified hr hreachable
    exact ⟨j, hj.carry h.known hknown' hd hr hreachable⟩
  · intro l k hk
    rcases hposition hk with hold | ⟨rfl, hplaced, hfits⟩
    · exact h.placed_carry hd hold (Nat.le_refl _)
    · refine ⟨hplaced, Nat.le_refl _, fun slots hslots => ?_⟩
      rw [hlast]
      exact hfits slots hslots

/-! ## § One more record -/

/-- The draft with a record of the current point, and with what else comes of it. -/
def withRecord (d : Draft) (item : CodeItem) (labels : LabelTable) (after : AbstractStack) (maxStack : Nat)
    (journal : List JournalEntry) : Draft :=
  { d with
    labels
    records := d.records.push ⟨item, d.stack⟩
    stack := after
    constrained := item.constrained?
    maxStack
    journal }

section WithRecord

variable {item : CodeItem} {labels : LabelTable} {after : AbstractStack} {maxStack : Nat}
  {journal : List JournalEntry}

theorem getElem?_withRecord {i : Nat} (hi : i < d.records.size) :
    (d.withRecord item labels after maxStack journal).records[i]? = d.records[i]? := by
  show (d.records.push ⟨item, d.stack⟩)[i]? = d.records[i]?
  rw [Array.getElem?_push, if_neg (Nat.ne_of_lt hi)]

theorem getElem?_withRecord_size :
    (d.withRecord item labels after maxStack journal).records[d.records.size]? = some ⟨item, d.stack⟩ :=
  Array.getElem?_push_size

theorem size_withRecord :
    (d.withRecord item labels after maxStack journal).records.size = d.records.size + 1 :=
  Array.size_push _

/-- The new record stands where the current stack was. -/
theorem stackAt_withRecord {k : Nat} (hk : k ≤ d.records.size) :
    (d.withRecord item labels after maxStack journal).stackAt k = d.stackAt k := by
  rcases Nat.lt_or_eq_of_le hk with hlt | rfl
  · exact stackAt_of_lt hlt (getElem?_withRecord hlt)
  · rw [stackAt_size, stackAt, getElem?_withRecord_size]
    rfl

theorem stackAt_withRecord_succ :
    (d.withRecord item labels after maxStack journal).stackAt (d.records.size + 1) = after := by
  rw [← size_withRecord, stackAt_size]
  rfl

theorem contextAt_withRecord {i : Nat} (hi : i ≤ d.records.size) :
    (d.withRecord item labels after maxStack journal).contextAt i = d.contextAt i := by
  have hqualifier : (d.withRecord item labels after maxStack journal).qualifierAt i = d.qualifierAt i := by
    cases i with
    | zero => rfl
    | succ i => rw [qualifierAt, qualifierAt, getElem?_withRecord hi]
  rw [contextAt, contextAt, hqualifier]
  rfl

theorem continues_withRecord (hlabels : d.labels.Follows labels) :
    d.Continues (d.withRecord item labels after maxStack journal) := by
  refine ⟨.refl _, fun i hi => ?_, hlabels, ?_⟩
  · rw [contextAt_withRecord (Nat.le_of_lt hi)]
    exact ⟨rfl, rfl, fun ht => ht, rfl, rfl⟩
  · intro k hk slots _ hfits
    rw [stackAt_withRecord hk]
    exact hfits

theorem Known.withRecord (h : d.Known) (hitem : item.Known d.graph) (hafter : after.Known d.graph)
    (hrecorded : ∀ {l slots}, labels.Records l slots → (AbstractStack.reachable slots).Known d.graph) :
    (d.withRecord item labels after maxStack journal).Known := by
  refine ⟨h.closed, h.lawful, h.system, h.method, h.arguments, h.locals, hafter, hrecorded, ?_⟩
  intro i r hr
  rcases Nat.lt_or_ge i d.records.size with hlt | hge
  · rw [getElem?_withRecord hlt] at hr
    exact h.records hr
  · have hi := (Array.getElem?_eq_some_iff.mp hr).1
    rw [size_withRecord] at hi
    have hlast : i = d.records.size := by omega
    subst hlast
    rw [getElem?_withRecord_size] at hr
    cases hr
    exact ⟨h.stack, hitem⟩

end WithRecord

/-- **`Typed.emit`** — one more record, which is verified against the current stack. -/
theorem Typed.emit (h : d.Typed) (item : CodeItem) {j : AbstractStack.Jump} (labels : LabelTable)
    (maxStack : Nat) (journal : List JournalEntry) (hitem : item.Known d.graph)
    (hrun : item.run d.graph d.context d.stack = .ok j)
    (hresults : d.stack.isReachable = true → item.HasResultTypes d.graph)
    (hlabels : d.labels.Follows labels)
    (hrecorded : ∀ {l slots}, labels.Records l slots →
      d.labels.Records l slots ∨ j.delivered = .reachable slots)
    (htargets : d.stack.isReachable = true → ∀ l ∈ item.targets, ∃ slots, labels.Records l slots ∧
      AbstractStack.isCompatible d.graph j.delivered (.reachable slots) = true)
    (hemitted : journal.filterMap JournalEntry.emitted? =
      ⟨item, d.stack⟩ :: d.journal.filterMap JournalEntry.emitted?)
    (hposition : ∀ l, JournalEntry.position? l journal = d.position? l) :
    (d.withRecord item labels j.next maxStack journal).Typed := by
  have hcurrent : d.contextAt d.records.size = d.context := by
    rw [Draft.contextAt, ← h.awaited]
    rfl
  rw [← hcurrent] at hrun
  have hjump : j.delivered.Known d.graph ∧ j.next.Known d.graph := by
    cases hstack : d.stack with
    | unreachable =>
      rw [hstack, CodeItem.run_unreachable] at hrun
      cases hrun
      exact ⟨AbstractStack.known_unreachable _, AbstractStack.known_unreachable _⟩
    | reachable slots =>
      have hreachable : d.stack.isReachable = true := by
        rw [hstack]
        rfl
      exact CodeItem.run_known h.known.closed (h.known.contextAt _) hitem (hresults hreachable) h.known.stack
        hrun
  have hd : d.Continues (d.withRecord item labels j.next maxStack journal) := continues_withRecord hlabels
  have hknown' : (d.withRecord item labels j.next maxStack journal).Known := by
    refine h.known.withRecord hitem hjump.2 fun hslots => ?_
    rcases hrecorded hslots with hslots | hdelivered
    · exact h.known.recorded hslots
    · rw [← hdelivered]
      exact hjump.1
  -- Old records are carried along, the new one has just been verified, and labels stay where they are.
  refine ⟨hknown', ?_, ?_, ?_, ?_⟩
  · rw [size_withRecord, Draft.qualifierAt, getElem?_withRecord_size]
    rfl
  · show journal.filterMap JournalEntry.emitted? = (d.records.push ⟨item, d.stack⟩).toList.reverse
    rw [Array.toList_push, List.reverse_append, ← h.reported]
    exact hemitted
  · intro i r hr hreachable
    rcases Nat.lt_trichotomy i d.records.size with hlt | rfl | hgt
    · rw [getElem?_withRecord hlt] at hr
      obtain ⟨j', hj'⟩ := h.verified hr hreachable
      exact ⟨j', hj'.carry h.known hknown' hd hr hreachable⟩
    · rw [getElem?_withRecord_size] at hr
      cases hr
      refine ⟨j, ?_, hresults hreachable, fun _ => ?_, htargets hreachable⟩
      · rw [contextAt_withRecord (Nat.le_refl _)]
        exact hrun
      · rw [stackAt_withRecord_succ]
        exact AbstractStack.isCompatible_refl _ _
    · have hi := (Array.getElem?_eq_some_iff.mp hr).1
      rw [size_withRecord] at hi
      omega
  · intro l k hk
    have hold : d.position? l = some k := (hposition l).symm.trans hk
    refine h.placed_carry hd hold ?_
    rw [size_withRecord]
    exact Nat.le_succ _

/-! ## § Operations on a typed draft -/

theorem Typed.addResultTypes (h : d.Typed) {insn : Instruction} (hinsn : insn.Known d.graph) :
    (d.addResultTypes insn).Typed := by
  rw [addResultTypes_eq]
  have hg : d.graph.Extends (if d.stack.isReachable then d.graph.withResultTypes insn else d.graph) := by
    split
    · exact TypeGraph.extends_withResultTypes _ _
    · exact .refl _
  refine h.grow d.locals hg ?_ ?_ (fun ht => ht) fun t ht => hg.knows (h.known.locals t ht)
  · split
    · exact h.known.closed.withResultTypes hinsn
    · exact h.known.closed
  · split
    · exact h.known.lawful.withResultTypes h.known.closed insn
    · exact h.known.lawful

/-- A label that is placed resumes with a stack that accepts the fall-through. -/
theorem Typed.resume (h : d.Typed) {l : Label} {resume : AbstractStack} {labels : LabelTable}
    (hplace : d.labels.place d.graph l d.stack = .ok (resume, labels)) :
    resume.Known d.graph ∧
      (∀ {slots}, (AbstractStack.reachable slots).Known d.graph →
        AbstractStack.isCompatible d.graph (.reachable slots) d.stack = true →
        AbstractStack.isCompatible d.graph (.reachable slots) resume = true) ∧
      ∀ {l' slots}, labels.Records l' slots → (AbstractStack.reachable slots).Known d.graph := by
  have hresume : resume.Known d.graph ∧
      ∀ {slots}, (AbstractStack.reachable slots).Known d.graph →
        AbstractStack.isCompatible d.graph (.reachable slots) d.stack = true →
        AbstractStack.isCompatible d.graph (.reachable slots) resume = true := by
    rcases (LabelTable.place_ok hplace).1 with ⟨-, rfl⟩ | ⟨recorded, hbound, rfl, hfits⟩
    · exact ⟨h.known.stack, fun _ hcompatible => hcompatible⟩
    · -- What fits the fall-through fits the record, because the fall-through does.
      refine ⟨h.known.recorded ⟨_, hbound, rfl⟩, fun hslots hcompatible => ?_⟩
      cases hstack : d.stack with
      | unreachable =>
        rw [hstack] at hcompatible
        cases hcompatible
      | reachable found =>
        have hknown := h.known.stack
        rw [hstack] at hcompatible hknown
        exact AbstractStack.isCompatible_trans h.known.closed h.known.lawful hslots hknown hcompatible
          (hfits found hstack)
  refine ⟨hresume.1, hresume.2, fun hrecords => ?_⟩
  rcases LabelTable.records_place hplace hrecords with ⟨-, rfl⟩ | ⟨-, hold⟩
  · exact hresume.1
  · exact h.known.recorded hold

/-- **`Typed.place`** — the place of a label is the current point, which continues with the record of the
label. -/
theorem Typed.place (h : d.Typed) (news : List JournalEntry)
    (hnews : ∀ entry ∈ news, entry.IsRemark) {l : Label} {resume : AbstractStack} {labels : LabelTable}
    (hplace : d.labels.place d.graph l d.stack = .ok (resume, labels)) {regions : RegionTracker} :
    Typed { d with
      labels
      regions
      stack := resume
      journal := .labelPlaced l resume :: (news ++ d.journal) } := by
  have hentry : (JournalEntry.labelPlaced l resume).placed? = some l := rfl
  have hemitted := JournalEntry.filterMap_emitted?_append hnews d.journal
  obtain ⟨hresume, haccepts, hrecorded⟩ := h.resume hplace
  refine h.settle (LabelTable.follows_place hplace) hrecorded hresume haccepts hemitted ?_
  intro l' k hk
  rw [JournalEntry.position?, hentry] at hk
  by_cases heq : l = l'
  · subst heq
    rw [if_pos rfl, hemitted, h.reported, List.length_reverse, Array.length_toList] at hk
    cases hk
    refine .inr ⟨rfl, ?_, fun slots hslots => ?_⟩
    · rw [LabelTable.isPlaced_place hplace, decide_eq_true rfl, Bool.true_or]
    · rcases LabelTable.records_place hplace hslots with ⟨-, rfl⟩ | ⟨hne, -⟩
      · exact AbstractStack.isCompatible_refl _ _
      · exact absurd rfl hne
  · rw [if_neg (fun hsome => heq (Option.some.inj hsome)), JournalEntry.position?_append hnews] at hk
    exact .inl hk

/-- Nothing fits a point that cannot be reached, so the code there can start afresh. -/
theorem Typed.restart (h : d.Typed) (news : List JournalEntry) (hnews : ∀ entry ∈ news, entry.IsRemark)
    (hdead : d.stack = .unreachable) {regions : RegionTracker} {stack : AbstractStack} {maxStack : Nat}
    (hstack : stack.Known d.graph) :
    Typed { d with regions, stack, maxStack, journal := news ++ d.journal } := by
  refine h.settle (.refl _) h.known.recorded hstack ?_ ?_ ?_
  · intro slots _ hfits
    rw [hdead] at hfits
    cases hfits
  · exact JournalEntry.filterMap_emitted?_append hnews _
  · intro l k hk
    rw [JournalEntry.position?_append hnews] at hk
    exact .inl hk

/-- New regions, new labels and new remarks change nothing about the code. -/
theorem Typed.report (h : d.Typed) (news : List JournalEntry) (hnews : ∀ entry ∈ news, entry.IsRemark)
    {labels : LabelTable} (hlabels : d.labels.Follows labels)
    (hrecorded : ∀ {l slots}, labels.Records l slots → (AbstractStack.reachable slots).Known d.graph)
    {regions : RegionTracker} : Typed { d with labels, regions, journal := news ++ d.journal } := by
  refine h.settle hlabels hrecorded h.known.stack (fun _ hfits => hfits) ?_ ?_
  · exact JournalEntry.filterMap_emitted?_append hnews _
  · intro l k hk
    rw [JournalEntry.position?_append hnews] at hk
    exact .inl hk

theorem Typed.define (h : d.Typed) (news : List JournalEntry) (hnews : ∀ entry ∈ news, entry.IsRemark)
    {regions : RegionTracker} :
    Typed { d with labels := d.labels.define.2, regions, journal := news ++ d.journal } :=
  h.report news hnews (LabelTable.follows_define _) fun hrecords =>
    h.known.recorded (LabelTable.records_define hrecords)

/-- An instruction is verified in the graph that has its result type. -/
theorem Typed.instruction (h : d.Typed) {insn : Instruction} (hinsn : insn.Known d.graph)
    {after : AbstractStack}
    (hok : d.stack.step (d.addResultTypes insn).graph (d.addResultTypes insn).context insn = .ok after) :
    Typed (((d.addResultTypes insn).note (.emitted ⟨.straight insn, d.stack⟩)).commitInstruction insn
      after) := by
  have hstack : (d.addResultTypes insn).stack = d.stack := by rw [addResultTypes_eq]
  have hinsn' : insn.Known (d.addResultTypes insn).graph := by
    rw [addResultTypes_eq]
    show insn.Known (if d.stack.isReachable then d.graph.withResultTypes insn else d.graph)
    split
    · exact Instruction.Known.extend (TypeGraph.extends_withResultTypes _ _) hinsn
    · exact hinsn
  have hresults : d.stack.isReachable = true → (d.addResultTypes insn).graph.HasResultTypes insn := by
    intro hreachable
    rw [addResultTypes_eq]
    show TypeGraph.HasResultTypes (if d.stack.isReachable then _ else _) insn
    rw [if_pos hreachable]
    exact TypeGraph.hasResultTypes_withResultTypes hinsn
  have htyped := h.addResultTypes hinsn
  rw [← hstack] at hok hresults ⊢
  generalize d.addResultTypes insn = d₁ at *
  refine htyped.emit (.straight insn) _ _ _ (j := ⟨after, after⟩) hinsn' ?_ hresults (.refl _) .inl ?_ ?_ ?_
  · exact CodeItem.run_straight_ok_iff.mpr ⟨after, hok, rfl⟩
  · intro _ l hl
    cases hl
  · rfl
  · exact fun l => rfl

/-- A branch adds a record, if no qualifier waits for another instruction. -/
theorem commitBranch_withRecord (hfree : d.constrained = none) (b : Branch Label) (j : AbstractStack.Jump) :
    ∃ late, (d.note (.emitted ⟨.branch b, d.stack⟩)).commitBranch b j =
        d.withRecord (.branch b) (edgesInto j.delivered b.targets d.labels) j.next
          (max d.maxStack (j.next.depth?.getD 0)) (late ++ .emitted ⟨.branch b, d.stack⟩ :: d.journal) ∧
      (∀ entry ∈ late, ∃ l, entry = .lateEdge l j.delivered) ∧
      ∀ l ∈ b.targets, d.labels.isLateEdge l j.delivered = true → .lateEdge l j.delivered ∈ late := by
  obtain ⟨late, hcommit, honly, hreported⟩ := commitBranch_eq b j (d.note (.emitted ⟨.branch b, d.stack⟩))
  refine ⟨late, ?_, honly, hreported⟩
  have hnone : CodeItem.constrained? (.branch b) = d.constrained := hfree.symm
  rw [hcommit, withRecord, hnone]
  rfl

/-- A branch is verified, and its targets accept what it delivers or record it. -/
theorem Typed.branch (h : d.Typed) {b : Branch Label} {j : AbstractStack.Jump}
    (hj : d.checkBranch b = .ok j)
    (hpunctual : ((d.note (.emitted ⟨.branch b, d.stack⟩)).commitBranch b j).Punctual) :
    Typed ((d.note (.emitted ⟨.branch b, d.stack⟩)).commitBranch b j) := by
  obtain ⟨hfree, -, hjump, hedges⟩ := checkBranch_ok hj
  have hrun : CodeItem.run d.graph d.context d.stack (.branch b) = .ok j := hjump
  obtain ⟨late, hcommit, honly, hreported⟩ := commitBranch_withRecord hfree b j
  rw [hcommit] at hpunctual ⊢
  have hearly : ∀ l ∈ b.targets, d.labels.isLateEdge l j.delivered = false := by
    intro l hl
    cases hlate : d.labels.isLateEdge l j.delivered with
    | false => rfl
    | true =>
      exact absurd (List.mem_append_left _ (hreported l hl hlate)) (hpunctual l j.delivered)
  have hnews : ∀ entry ∈ late, entry.IsRemark := by
    intro entry hentry
    obtain ⟨l, rfl⟩ := honly entry hentry
    exact ⟨rfl, rfl⟩
  refine h.emit (.branch b) _ _ _ trivial hrun (fun _ => trivial) (LabelTable.follows_recordEdges hearly)
    LabelTable.records_recordEdges ?_ ?_ ?_
  · intro hreachable l hl
    obtain ⟨found, hfound⟩ := CodeItem.run_delivered hrun hreachable hl
    obtain ⟨state, hstate, hfits⟩ := LabelTable.checkEdge_ok_iff.mp (hedges l hl)
    obtain ⟨slots, hslots, hcase⟩ := LabelTable.records_of_edge ⟨state, hstate⟩ found hl
    rw [hfound]
    -- The edge has made the record, or was checked against it.
    refine ⟨slots, hslots, ?_⟩
    rcases hcase with rfl | ⟨state', hstate', hrecord⟩
    · exact AbstractStack.isCompatible_refl _ _
    · cases hstate.symm.trans hstate'
      exact hfits found slots hfound hrecord
  · rw [JournalEntry.filterMap_emitted?_append hnews]
    rfl
  · intro l
    rw [JournalEntry.position?_append hnews]
    rfl

/-- The caught exception is known. -/
theorem Known.handlerStack (h : d.Known) {kind : RegionKind}
    (hexception : ∀ t, kind = .catchHandler t → d.graph.Knows t) :
    (d.handlerStack kind).Known d.graph := by
  have hone {t : TypeId} (ht : d.graph.Knows t) : (AbstractStack.reachable [.value t]).Known d.graph := by
    rw [AbstractStack.known_reachable, List.forall_mem_singleton]
    exact TypeTag.known_value.mpr ht
  cases kind with
  | catchHandler t => exact hone (hexception t rfl)
  | filterBlock => exact hone h.system.exception
  | tryBlock => exact AbstractStack.known_empty _
  | faultHandler => exact AbstractStack.known_empty _
  | finallyHandler => exact AbstractStack.known_empty _

/-! ## § Every step keeps a draft typed -/

variable {σ : Type} [CodeSink σ]

/-- What has not been reported so far has not been reported before. -/
theorem Punctual.before {op : Operation} {b b' : Builder σ} (hstep : Step op b b')
    (h : b'.draft.Punctual) : b.draft.Punctual :=
  fun l incoming hmem => h l incoming (hstep.journal_suffix.subset hmem)

/-- **`Typed.step`** — no step of an operation on known types makes a draft inconsistent, as long as no label
is reached late and no code between handlers is brought back. -/
theorem Typed.step {op : Operation} {b b' : Builder σ} (hstep : Step op b b')
    (hop : op.Known b.draft.graph) (hsettled : Settled b.draft) (hpunctual : b'.draft.Punctual)
    (h : b.draft.Typed) : b'.draft.Typed := by
  cases hstep with
  | @declareLocal d w t ht =>
    refine h.grow (d.locals.push t) (.refl _) h.known.closed h.known.lawful ?_ ?_
    · intro i t' ht'
      obtain ⟨hi, rfl⟩ := Array.getElem?_eq_some_iff.mp ht'
      exact Array.getElem?_push_lt hi
    · intro t' ht'
      rcases Array.mem_push.mp ht' with hold | rfl
      · exact h.known.locals t' hold
      · exact hop.2 t' ht
  | defineLabel => exact h.define [] (List.forall_mem_nil _)
  | addResultTypes hinsn => exact h.addResultTypes (hop.1 _ hinsn)
  | report =>
    exact h.report [_] (List.forall_mem_singleton.mpr ⟨rfl, rfl⟩) (.refl _) h.known.recorded
  | instruction hinsn hvirtual hok hsink => exact h.instruction (hop.1 _ hinsn) hok
  | instructionRefused => exact h
  | branch hb hj hsink => exact h.branch hj hpunctual
  | branchRefused => exact h
  | place hplaced hfree hplace hsink => exact h.place [] (List.forall_mem_nil _) hplace
  | placeRefused hplaced hplace hsink =>
    exact h.report [] (List.forall_mem_nil _) (LabelTable.follows_place hplace) (h.resume hplace).2.2
  | beginTry hfree hbegin hsink =>
    exact h.define [_] (List.forall_mem_singleton.mpr ⟨rfl, rfl⟩)
  | beginTryRefused hbegin hsink => exact h.define [] (List.forall_mem_nil _)
  | @beginHandler d w w' tryRegion region kind regions hbegun hfree hbetween hbegin hsink =>
    -- A handler starts in dead code: what could be reached there would lie between handlers.
    have hdead : d.stack = .unreachable := by
      cases hstack : d.stack with
      | unreachable => rfl
      | reachable slots => exact hstack ▸ hsettled.dead (hbetween (by rw [hstack]; rfl))
    refine h.restart [_] (List.forall_mem_singleton.mpr ⟨rfl, rfl⟩) hdead (h.known.handlerStack ?_)
    rintro t rfl
    refine hop.2 t ?_
    rw [hbegun]
    exact List.mem_singleton_self t
  | beginHandlerRefused hbetween hbegin hsink =>
    exact h.report [] (List.forall_mem_nil _) (.refl _) h.known.recorded
  | endHandler hfree hkind hdead hend hsink =>
    exact h.report [_] (List.forall_mem_singleton.mpr ⟨rfl, rfl⟩) (.refl _) h.known.recorded
  | endTry hfree hblock hend hregion hplace hsink =>
    exact h.place [_] (List.forall_mem_singleton.mpr ⟨rfl, rfl⟩) hplace
  | endTryUnplaced hblock hend hregion hplace =>
    exact h.report [_] (List.forall_mem_singleton.mpr ⟨rfl, rfl⟩) (.refl _) h.known.recorded
  | endTryRefused hblock hend hregion hplace hsink =>
    exact h.report [_] (List.forall_mem_singleton.mpr ⟨rfl, rfl⟩) (LabelTable.follows_place hplace)
      (h.resume hplace).2.2
  | endRefused hdead hend hsink =>
    exact h.report [] (List.forall_mem_nil _) (.refl _) h.known.recorded

end Draft

end ManagedCode
