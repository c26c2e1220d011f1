/-
# ManagedCode.Proofs.Builder.Clauses — the table of clauses reflects the nesting of the regions.

A writer learns where a protected block starts, where its first handler ends it and where a filter block
starts at different calls, and keeps each in a book of its own until a handler is closed.  `Booked` says what
the books hold before each call of a bracketed history; so every clause describes the phases of its block
(`Describes`), and the clauses stand in the order in which the handlers were closed.  The rest is how phases
lie inside each other (`Reflects`).
-/
import ManagedCode.Proofs.Builder.Nesting

namespace ManagedCode

open Body (Writer ExceptionClause OpenHandler MethodBody Registry)

/-! ## § What a clause describes -/

/-- What the clause of a handler of some kind handles.  The handler opens at the position `b`; a catch handler
that a filter block guards is described by the filter. -/
def Handles (g : TypeGraph) (calls : List Delivery) (b : Nat) (t : Region) (clause : ExceptionClause) :
    RegionKind → Prop
  | .catchHandler exception =>
    (clause.kind = .catchClause ∧ clause.classToken = (g.type exception).token ∧
      ∀ f, ¬ GuardedAt calls f b t) ∨
    (clause.kind = .filterClause ∧ ∃ f, GuardedAt calls f b t ∧ clause.filterOffset = offsetAt calls f)
  | .finallyHandler => clause.kind = .finallyClause
  | .faultHandler => clause.kind = .faultClause
  | .tryBlock | .filterBlock => False

/-- **`Describes`** — the clause describes the handler: its ranges are those of the body of the block and of
the handler. -/
def Describes (calls : List Delivery) (h : Region) (clause : ExceptionClause) : Prop :=
  ∃ t g kind i f b j, Spans calls t i f .body ∧ calls[b]? = some (.beginRegion g h kind (some t)) ∧
    ClosesAt calls j h ∧
    clause.tryOffset = offsetAt calls i ∧ clause.tryOffset + clause.tryLength = offsetAt calls f ∧
    clause.handlerOffset = offsetAt calls b ∧ clause.handlerOffset + clause.handlerLength = offsetAt calls j ∧
    Handles g calls b t clause kind

/-- **`InOrder`** — the ranges of a clause follow one another within code of the given size, and the handler
is not empty. -/
structure Body.ExceptionClause.InOrder (size : Nat) (c : ExceptionClause) : Prop where
  protected_first : c.tryOffset + c.tryLength ≤ c.handlerOffset
  nonempty : 0 < c.handlerLength
  inside : c.handlerOffset + c.handlerLength ≤ size
  /-- The filter block stands between the two. -/
  filter_between : c.kind = .filterClause →
    c.tryOffset + c.tryLength ≤ c.filterOffset ∧ c.filterOffset < c.handlerOffset

/-- A filter block is closed before the handler that it guards opens. -/
theorem Bracketed.filter_over {calls : List Delivery} (h : Bracketed calls) {f b : Nat} {r t : Region}
    {kind : RegionKind} (hguard : GuardedAt calls f b t) (hb : OpensAt calls b r kind (some t)) :
    offsetAt calls f < offsetAt calls b := by
  obtain ⟨hlt, ⟨r', hf⟩, -⟩ := hguard
  obtain ⟨j, -, hj, hclose⟩ := h.handler_closed hf hb hlt
  exact Nat.lt_of_lt_of_le (h.handler_filled hf hclose) (offsetAt_mono (Nat.le_of_lt hj))

theorem Describes.inOrder {calls : List Delivery} (h : Bracketed calls) {r : Region} {clause : ExceptionClause}
    (hd : Describes calls r clause) : clause.InOrder (extent {} calls) := by
  obtain ⟨t, g, kind, i, f, b, j, ⟨-, -, hfirst⟩, hb, hclose, hstart, hstop, hhandler, hend, hhandles⟩ := hd
  have hopen : OpensAt calls b r kind (some t) := ⟨g, hb⟩
  have hfb : offsetAt calls f ≤ offsetAt calls b := offsetAt_mono (hfirst b r kind hopen)
  have hfilled := h.handler_filled hopen hclose
  have hlast := offsetAt_le calls j
  refine ⟨by omega, by omega, by omega, fun hkind => ?_⟩
  -- Only a catch handler can have a filter clause, and then it has a filter.
  cases kind with
  | catchHandler exception =>
    rcases hhandles with ⟨hcatch, -⟩ | ⟨-, m, hguard, hfilter⟩
    · cases hkind.symm.trans hcatch
    · obtain ⟨r', hm⟩ := hguard.2.1
      have hfm : offsetAt calls f ≤ offsetAt calls m := offsetAt_mono (hfirst m r' _ hm)
      have hmb := h.filter_over hguard hopen
      omega
  | finallyHandler => cases hkind.symm.trans hhandles
  | faultHandler => cases hkind.symm.trans hhandles
  | tryBlock => exact hhandles.elim
  | filterBlock => exact hhandles.elim

/-! ## § What the books hold -/

/-- The end of a block in the books: nothing before its first handler, and where that opens afterwards. -/
def EndedAt (calls : List Delivery) (k : Nat) (t : Region) : Option Nat → Prop
  | some stop => ∃ f < k, FirstHandlerAt calls f t ∧ stop = offsetAt calls f
  | none => ∀ m < k, ∀ h kind, ¬ OpensAt calls m h kind (some t)

/-- The filter that is pending on a block: the filter block that guards a handler that opens now. -/
def PendingAt (calls : List Delivery) (k : Nat) (t : Region) : Option Nat → Prop
  | some offset => ∃ f, GuardedAt calls f k t ∧ offset = offsetAt calls f
  | none => ∀ f, ¬ GuardedAt calls f k t

/-- The region is closed before the other. -/
def ClosedBefore (calls : List Delivery) (h h' : Region) : Prop :=
  ∃ j j', j < j' ∧ ClosesAt calls j h ∧ ClosesAt calls j' h'

/-- The clauses describe the handlers that the first calls have closed, in the order in which they were. -/
def Tabulated (calls : List Delivery) (k : Nat) (clauses : List ExceptionClause) : Prop :=
  ∃ handlers : List Region, handlers.Pairwise (ClosedBefore calls) ∧
    (∀ h, h ∈ handlers ↔
      ∃ j < k, ClosesAt calls j h ∧ ∃ kind t, kind ≠ .filterBlock ∧ Begun calls h kind (some t)) ∧
    List.Forall₂ (Describes calls) handlers clauses

section Books

variable {calls : List Delivery} {f k : Nat} {h t : Region} {kind : RegionKind} {stop pending : Option Nat}

theorem guardedAt_succ (hquiet : ∀ h kind, ¬ OpensAt calls k h kind (some t)) :
    GuardedAt calls f (k + 1) t ↔ GuardedAt calls f k t := by
  constructor
  · rintro ⟨hlt, ⟨r, hr⟩, hbetween⟩
    have hne : f ≠ k := by
      rintro rfl
      exact hquiet r _ hr
    exact ⟨by omega, ⟨r, hr⟩, fun m h kind hfm hmk => hbetween m h kind hfm (Nat.lt_succ_of_lt hmk)⟩
  · rintro ⟨hlt, hr, hbetween⟩
    refine ⟨Nat.lt_succ_of_lt hlt, hr, fun m h kind hfm hmk => ?_⟩
    rcases Nat.lt_succ_iff_lt_or_eq.mp hmk with hmk | rfl
    · exact hbetween m h kind hfm hmk
    · exact hquiet h kind

/-- A handler that has just opened guards what comes next if it is a filter block, and nothing else does. -/
theorem guardedAt_handler (hopen : OpensAt calls k h kind (some t)) :
    GuardedAt calls f (k + 1) t ↔ f = k ∧ kind = .filterBlock := by
  constructor
  · rintro ⟨hlt, ⟨r, hr⟩, hbetween⟩
    have hle : ¬ f < k := fun hfk => hbetween k h kind hfk (Nat.lt_succ_self k) hopen
    obtain rfl : f = k := by omega
    exact ⟨rfl, (hopen.same hr).2.1⟩
  · rintro ⟨rfl, rfl⟩
    exact ⟨Nat.lt_succ_self f, ⟨h, hopen⟩, fun m h kind hfm hmf => by omega⟩

/-- What a filter block guards is a catch handler. -/
theorem Bracketed.guarded_isCatch (hb : Bracketed calls) (hopen : OpensAt calls k h kind (some t))
    (hguard : GuardedAt calls f k t) : kind.isCatch = true := by
  obtain ⟨g, hg⟩ := hopen
  obtain ⟨hlt, ⟨r, hr⟩, hbetween⟩ := hguard
  obtain ⟨-, -, -, -, hcatch⟩ := hb k _ hg
  refine hcatch r (begun_take_iff.mpr ⟨f, hlt, hr⟩) fun h' kind' hh' => ?_
  obtain ⟨m, hmk, hm⟩ := begun_take_iff.mp hh'
  rcases Nat.lt_trichotomy m f with hmf | rfl | hfm
  · exact Nat.le_of_lt (hb.index_lt hm hr hmf)
  · rw [(hm.same hr).1]
  · exact absurd hm (hbetween m h' kind' hfm hmk)

theorem pendingAt_succ (hquiet : ∀ h kind, ¬ OpensAt calls k h kind (some t)) :
    PendingAt calls (k + 1) t pending ↔ PendingAt calls k t pending := by
  cases pending <;> simp only [PendingAt, guardedAt_succ hquiet]

theorem pendingAt_handler (hb : Bracketed calls) (hopen : OpensAt calls k h kind (some t))
    (hpending : PendingAt calls k t pending) :
    PendingAt calls (k + 1) t (Writer.pendingAfter kind (offsetAt calls k) pending) := by
  have hnone : kind ≠ .filterBlock → PendingAt calls (k + 1) t none :=
    fun hkind f hguard => hkind ((guardedAt_handler hopen).mp hguard).2
  have hexclusive : kind.isCatch = false → kind ≠ .filterBlock → PendingAt calls (k + 1) t pending := by
    intro hcatch hkind
    cases pending with
    | none => exact hnone hkind
    | some offset =>
      obtain ⟨f, hguard, -⟩ := hpending
      rw [hb.guarded_isCatch hopen hguard] at hcatch
      cases hcatch
  cases kind with
  | tryBlock => exact absurd rfl (hb.handler_opens hopen).1
  | filterBlock => exact ⟨k, (guardedAt_handler hopen).mpr ⟨rfl, rfl⟩, rfl⟩
  | catchHandler exception => exact hnone (by simp)
  | finallyHandler => exact hexclusive rfl (by simp)
  | faultHandler => exact hexclusive rfl (by simp)

theorem endedAt_succ (hquiet : ∀ h kind, ¬ OpensAt calls k h kind (some t)) (hended : EndedAt calls k t stop) :
    EndedAt calls (k + 1) t stop := by
  cases stop with
  | some stop =>
    obtain ⟨f, hf, hfirst⟩ := hended
    exact ⟨f, Nat.lt_succ_of_lt hf, hfirst⟩
  | none =>
    intro m hm h kind hopen
    rcases Nat.lt_succ_iff_lt_or_eq.mp hm with hm | rfl
    · exact hended m hm h kind hopen
    · exact hquiet h kind hopen

/-- The first handler ends the block, later ones find it ended. -/
theorem endedAt_handler (hopen : OpensAt calls k h kind (some t)) (hended : EndedAt calls k t stop) :
    EndedAt calls (k + 1) t (some (stop.getD (offsetAt calls k))) := by
  cases stop with
  | some stop =>
    obtain ⟨f, hf, hfirst⟩ := hended
    exact ⟨f, Nat.lt_succ_of_lt hf, hfirst⟩
  | none =>
    refine ⟨k, Nat.lt_succ_self k, ⟨⟨h, kind, hopen⟩, fun m h' kind' hm => ?_⟩, rfl⟩
    exact Nat.not_lt.mp fun hmk => hended m hmk h' kind' hm

/-- The clause of an entry handles what the handler does. -/
theorem handles_entryOf (g : TypeGraph) {b : Nat} (hkind : kind ≠ .tryBlock) (hfilter : kind ≠ .filterBlock)
    (hpending : PendingAt calls b t pending) (start first last : Nat) (w : Writer) :
    Handles g calls b t (w.clauseOf (Writer.entryOf g kind t start pending) first last) kind := by
  cases kind with
  | tryBlock => exact absurd rfl hkind
  | filterBlock => exact absurd rfl hfilter
  | finallyHandler => rfl
  | faultHandler => rfl
  | catchHandler exception =>
    cases pending with
    | none => exact .inl ⟨rfl, rfl, hpending⟩
    | some offset =>
      obtain ⟨f, hguard, rfl⟩ := hpending
      exact .inr ⟨rfl, f, hguard, rfl⟩

/-- A call that closes no handler but a filter block adds no clause. -/
theorem Tabulated.succ {clauses : List ExceptionClause} (htable : Tabulated calls k clauses)
    (hquiet : ∀ h kind t, ClosesAt calls k h → Begun calls h kind (some t) → kind = .filterBlock) :
    Tabulated calls (k + 1) clauses := by
  obtain ⟨handlers, hordered, hmem, hdescribed⟩ := htable
  refine ⟨handlers, hordered, fun h => (hmem h).trans ?_, hdescribed⟩
  constructor
  · rintro ⟨j, hj, hrest⟩
    exact ⟨j, Nat.lt_succ_of_lt hj, hrest⟩
  · rintro ⟨j, hj, hclose, kind, t, hkind, hbegun⟩
    rcases Nat.lt_succ_iff_lt_or_eq.mp hj with hj | rfl
    · exact ⟨j, hj, hclose, kind, t, hkind, hbegun⟩
    · exact absurd (hquiet h kind t hclose hbegun) hkind

/-- A handler that is closed adds the last clause. -/
theorem Tabulated.close {clauses : List ExceptionClause} (htable : Tabulated calls k clauses)
    (hclose : ClosesAt calls k h) (hbegun : Begun calls h kind (some t)) (hkind : kind ≠ .filterBlock)
    {clause : ExceptionClause} (hclause : Describes calls h clause) :
    Tabulated calls (k + 1) (clauses ++ [clause]) := by
  obtain ⟨handlers, hordered, hmem, hdescribed⟩ := htable
  refine ⟨handlers ++ [h], ?_, fun r => ?_, ?_⟩
  · refine List.pairwise_append.mpr ⟨hordered, List.pairwise_singleton _ _, fun r hr r' hr' => ?_⟩
    obtain rfl := List.mem_singleton.mp hr'
    obtain ⟨j, hj, hearlier, -⟩ := (hmem r).mp hr
    exact ⟨j, k, hj, hearlier, hclose⟩
  · rw [List.mem_append, List.mem_singleton, hmem]
    constructor
    · rintro (⟨j, hj, hrest⟩ | rfl)
      · exact ⟨j, Nat.lt_succ_of_lt hj, hrest⟩
      · exact ⟨k, Nat.lt_succ_self k, hclose, kind, t, hkind, hbegun⟩
    · rintro ⟨j, hj, hrest, hkind'⟩
      rcases Nat.lt_succ_iff_lt_or_eq.mp hj with hj | rfl
      · exact .inl ⟨j, hj, hrest, hkind'⟩
      · cases hclose.symm.trans hrest
        exact .inr rfl
  · exact List.rel_append hdescribed (.cons hclause .nil)

end Books

/-- **`Booked`** — the books of a writer before the call at a position. -/
structure Booked (calls : List Delivery) (k : Nat) (w : Writer) : Prop where
  blocks : ∀ t block, w.blocks.find? t = some block → ∃ i < k, OpensAt calls i t .tryBlock none ∧
    block.start = offsetAt calls i ∧ EndedAt calls k t block.stop
  handlers : ∀ h entry, w.handlers.find? h = some entry → ∃ b < k, ∃ g kind t pending,
    calls[b]? = some (.beginRegion g h kind (some t)) ∧ PendingAt calls b t pending ∧
    entry = Writer.entryOf g kind t (offsetAt calls b) pending
  pending : ∀ t, PendingAt calls k t (w.pendingFilters.find? t)
  clauses : Tabulated calls k w.clauses.toList

namespace Booked

variable {calls : List Delivery} {k : Nat} {w w' : Writer}

/-- An entry for a block stays right as long as no handler of the block opens. -/
theorem block_succ (h : Booked calls k w) {t : Region} {block : Body.ProtectedBlock}
    (hquiet : ∀ h kind, ¬ OpensAt calls k h kind (some t)) (hblock : w.blocks.find? t = some block) :
    ∃ i < k + 1, OpensAt calls i t .tryBlock none ∧ block.start = offsetAt calls i ∧
      EndedAt calls (k + 1) t block.stop := by
  obtain ⟨i, hi, hopen, hstart, hended⟩ := h.blocks t block hblock
  exact ⟨i, Nat.lt_succ_of_lt hi, hopen, hstart, endedAt_succ hquiet hended⟩

theorem handler_succ (h : Booked calls k w) {r : Region} {entry : OpenHandler}
    (hentry : w.handlers.find? r = some entry) : ∃ b < k + 1, ∃ g kind t pending,
      calls[b]? = some (.beginRegion g r kind (some t)) ∧ PendingAt calls b t pending ∧
      entry = Writer.entryOf g kind t (offsetAt calls b) pending := by
  obtain ⟨b, hb, hrest⟩ := h.handlers r entry hentry
  exact ⟨b, Nat.lt_succ_of_lt hb, hrest⟩

/-- Calls that open and close nothing. -/
theorem quiet (h : Booked calls k w) {call : Delivery} (hcall : calls[k]? = some call)
    (hbegin : ∀ g r kind owner, call ≠ .beginRegion g r kind owner) (hend : ∀ r, call ≠ .endRegion r)
    (hblocks : w'.blocks = w.blocks) (hhandlers : w'.handlers = w.handlers)
    (hpending : w'.pendingFilters = w.pendingFilters) (hclauses : w'.clauses = w.clauses) :
    Booked calls (k + 1) w' := by
  have hquiet (t r : Region) (kind : RegionKind) : ¬ OpensAt calls k r kind (some t) := by
    rintro ⟨g, hg⟩
    exact hbegin g r kind (some t) (Option.some.inj (hcall.symm.trans hg))
  refine ⟨fun t block hblock => ?_, fun r entry hentry => ?_, fun t => ?_, ?_⟩
  · exact h.block_succ (hquiet t) (hblocks ▸ hblock)
  · exact h.handler_succ (hhandlers ▸ hentry)
  · rw [hpending]
    exact (pendingAt_succ (hquiet t)).mpr (h.pending t)
  · rw [hclauses]
    exact h.clauses.succ fun r kind t hclose => absurd (Option.some.inj (hcall.symm.trans hclose)) (hend r)

theorem beginBlock (h : Booked calls k w) (hb : Bracketed calls) {region : Region}
    (hopen : OpensAt calls k region .tryBlock none) (hoffset : w.offset = offsetAt calls k) :
    Booked calls (k + 1) (w.beginBlock region) := by
  have hquiet (t r : Region) (kind : RegionKind) : ¬ OpensAt calls k r kind (some t) := by
    intro hr
    cases (hopen.same hr).2.2
  refine ⟨fun t block hblock => ?_, fun r entry => h.handler_succ, fun t => ?_, ?_⟩
  · have hfind : (w.beginBlock region).blocks.find? t =
        if t = region then some { start := w.offset } else w.blocks.find? t := Registry.find?_insert _ _ _ _
    rw [hfind] at hblock
    split at hblock
    · rename_i heq
      cases hblock
      subst heq
      refine ⟨k, Nat.lt_succ_self k, hopen, hoffset, fun m hm r kind hr => ?_⟩
      -- A handler opens later than its block.
      obtain ⟨-, i, him, hblock, -⟩ := hb.handler_opens hr
      obtain ⟨rfl, -, -⟩ := hb.opensAt_unique hblock hopen
      omega
    · exact h.block_succ (hquiet t) hblock
  · exact (pendingAt_succ (hquiet t)).mpr (h.pending t)
  · exact h.clauses.succ fun r kind t hclose => absurd rfl (hopen.ne_closesAt hclose)

theorem beginHandler (h : Booked calls k w) (hb : Bracketed calls) {g : TypeGraph} {region t : Region}
    {kind : RegionKind} (hcall : calls[k]? = some (.beginRegion g region kind (some t)))
    (hoffset : w.offset = offsetAt calls k) (hmake : Writer.beginHandler g region kind t w = .ok () w') :
    Booked calls (k + 1) w' := by
  have hopen : OpensAt calls k region kind (some t) := ⟨g, hcall⟩
  have hquiet {t' : Region} (hne : t' ≠ t) (r : Region) (kind : RegionKind) :
      ¬ OpensAt calls k r kind (some t') := by
    intro hr
    exact hne (Option.some.inj (hr.same hopen).2.2)
  obtain ⟨-, block, pendingFilters, hblock, rfl, hpending⟩ := Writer.beginHandler_cases hmake
  refine ⟨fun t' found hfound => ?_, fun r entry hentry => ?_, fun t' => ?_, ?_⟩
  · replace hfound : (w.endBlock t block).blocks.find? t' = some found := hfound
    rw [Writer.find?_endBlock_eq hblock] at hfound
    split at hfound
    · rename_i heq
      cases hfound
      subst heq
      obtain ⟨i, hi, hblockOpen, hstart, hended⟩ := h.blocks t' block hblock
      refine ⟨i, Nat.lt_succ_of_lt hi, hblockOpen, hstart, ?_⟩
      rw [hoffset]
      exact endedAt_handler hopen hended
    · rename_i hne
      exact h.block_succ (hquiet hne) hfound
  · rw [Registry.find?_insert] at hentry
    split at hentry
    · rename_i heq
      cases hentry
      subst heq
      exact ⟨k, Nat.lt_succ_self k, g, kind, t, _, hcall, h.pending t, by rw [hoffset]⟩
    · exact h.handler_succ hentry
  · show PendingAt calls (k + 1) t' (pendingFilters.find? t')
    rw [hpending]
    split
    · rename_i heq
      rw [heq, hoffset]
      exact pendingAt_handler hb hopen (h.pending t)
    · rename_i hne
      exact (pendingAt_succ (hquiet hne)).mpr (h.pending t')
  · exact h.clauses.succ fun r kind t hclose => absurd rfl (hopen.ne_closesAt hclose)

/-- What the books hold when a handler is closed makes its clause. -/
theorem describes (h : Booked calls k w) (hb : Bracketed calls) {region : Region} {entry : OpenHandler}
    {start stop : Nat} (hclose : ClosesAt calls k region) (hoffset : w.offset = offsetAt calls k)
    (hentry : w.handlers.find? region = some entry) (hfilter : entry.isFilterBlock = false)
    (howner : w.blocks.find? entry.tryRegion = some ⟨start, some stop⟩) :
    (∃ kind t, kind ≠ .filterBlock ∧ Begun calls region kind (some t)) ∧
      Describes calls region (w.clauseOf entry start stop) := by
  obtain ⟨b, hbk, g, kind, t, pending, hcall, hguard, rfl⟩ := h.handlers region entry hentry
  have hopen : OpensAt calls b region kind (some t) := ⟨g, hcall⟩
  have hkind := (hb.handler_opens hopen).1
  have hnofilter : kind ≠ .filterBlock := by
    rw [Ne, ← Writer.isFilterBlock_entryOf g hkind, hfilter]
    exact Bool.false_ne_true
  rw [Writer.tryRegion_entryOf] at howner
  obtain ⟨i, -, hblock, hstart, f, -, hfirst, hstop⟩ := h.blocks t _ howner
  obtain ⟨h', kind', hf⟩ := hfirst.1
  obtain ⟨-, i', hif, hblock', -⟩ := hb.handler_opens hf
  obtain ⟨rfl, -, -⟩ := hb.opensAt_unique hblock hblock'
  have hbody : offsetAt calls i ≤ offsetAt calls f := offsetAt_mono (Nat.le_of_lt hif)
  have hrange : offsetAt calls b ≤ offsetAt calls k := offsetAt_mono (Nat.le_of_lt hbk)
  refine ⟨⟨kind, t, hnofilter, begun_iff.mpr ⟨b, hopen⟩⟩, t, g, kind, i, f, b, k, ⟨hblock, hfirst⟩, hcall,
    hclose, hstart, ?_, Writer.start_entryOf _ _ _ _ _, ?_, handles_entryOf g hkind hnofilter hguard _ _ _ _⟩
  · show start + (stop - start) = offsetAt calls f
    replace hstart : start = offsetAt calls i := hstart
    omega
  · show (Writer.entryOf g kind t (offsetAt calls b) pending).start +
      (w.offset - (Writer.entryOf g kind t (offsetAt calls b) pending).start) = offsetAt calls k
    rw [Writer.start_entryOf, hoffset]
    omega

theorem endRegion (h : Booked calls k w) (hb : Bracketed calls) {region : Region}
    (hclose : ClosesAt calls k region) (hoffset : w.offset = offsetAt calls k)
    (hmake : Writer.endRegion region w = .ok () w') : Booked calls (k + 1) w' := by
  have hquiet (t r : Region) (kind : RegionKind) : ¬ OpensAt calls k r kind (some t) :=
    fun hr => hr.ne_closesAt hclose rfl
  have hpending (t : Region) : PendingAt calls (k + 1) t (w.pendingFilters.find? t) :=
    (pendingAt_succ (hquiet t)).mpr (h.pending t)
  have hhandlers (r : Region) (entry : OpenHandler)
      (hentry : (w.handlers.erase region).find? r = some entry) : w.handlers.find? r = some entry := by
    rw [Registry.find?_erase] at hentry
    split at hentry
    · cases hentry
    · exact hentry
  rcases Writer.endRegion_cases hmake with
    ⟨block, hblock, rfl⟩ | ⟨entry, hentry, hfilter, rfl⟩ | ⟨entry, start, stop, hentry, hfilter, howner, rfl⟩
  · refine ⟨fun t found hfound => ?_, fun r entry => h.handler_succ, hpending, ?_⟩
    · rw [Registry.find?_erase] at hfound
      split at hfound
      · cases hfound
      · exact h.block_succ (hquiet t) hfound
    · refine h.clauses.succ fun r kind t hclose' hbegun => ?_
      -- What is closed is a block, not a handler.
      cases hclose.symm.trans hclose'
      obtain ⟨i, -, hopen, -⟩ := h.blocks region block hblock
      cases (hb.begun_unique (begun_iff.mpr ⟨i, hopen⟩) hbegun).2
  · refine ⟨fun t block => h.block_succ (hquiet t), fun r entry hentry => ?_, hpending, ?_⟩
    · exact h.handler_succ (hhandlers r entry hentry)
    · refine h.clauses.succ fun r kind t hclose' hbegun => ?_
      cases hclose.symm.trans hclose'
      obtain ⟨b, -, g, kind', t', pending, hcall, -, rfl⟩ := h.handlers region entry hentry
      have hopen : OpensAt calls b region kind' (some t') := ⟨g, hcall⟩
      rw [Writer.isFilterBlock_entryOf g (hb.handler_opens hopen).1] at hfilter
      rw [← hfilter]
      exact (hb.begun_unique hbegun (begun_iff.mpr ⟨b, hopen⟩)).1
  · refine ⟨fun t block => h.block_succ (hquiet t), fun r entry hentry => ?_, hpending, ?_⟩
    · exact h.handler_succ (hhandlers r entry hentry)
    · obtain ⟨⟨kind, t, hkind, hbegun⟩, hclause⟩ := h.describes hb hclose hoffset hentry hfilter howner
      show Tabulated calls (k + 1) (w.clauses.push _).toList
      rw [Array.toList_push]
      exact h.clauses.close hclose hbegun hkind hclause

/-- **`Booked.step`** — every call keeps the books. -/
theorem step (h : Booked calls k w) (hb : Bracketed calls) {call : Delivery} (hcall : calls[k]? = some call)
    (hoffset : w.offset = offsetAt calls k) (hmake : call.make w = .ok () w') : Booked calls (k + 1) w' := by
  cases call with
  | instruction g insn =>
    cases hmake
    exact h.quiet hcall (by simp) (by simp) rfl rfl rfl rfl
  | branch b =>
    cases hmake
    exact h.quiet hcall (by simp) (by simp) rfl rfl rfl rfl
  | label l =>
    obtain ⟨-, rfl⟩ := Writer.markLabel_cases hmake
    exact h.quiet hcall (by simp) (by simp) rfl rfl rfl rfl
  | beginRegion g region kind owner =>
    cases owner with
    | none =>
      cases hmake
      obtain rfl : kind = .tryBlock := (hb k _ hcall).1
      exact h.beginBlock hb ⟨g, hcall⟩ hoffset
    | some t => exact h.beginHandler hb hcall hoffset hmake
  | endRegion region => exact h.endRegion hb hcall hoffset hmake

/-- **`booked`** — the books of a writer that takes a bracketed history. -/
theorem booked (hb : Bracketed calls) (hk : k ≤ calls.length)
    (htaken : Takes Writer.empty (calls.take k) w) : Booked calls k w := by
  induction k generalizing w with
  | zero =>
    cases takes_nil.mp htaken
    refine ⟨by simp [Writer.empty, Registry.find?], by simp [Writer.empty, Registry.find?], fun t f => ?_, ?_⟩
    · rintro ⟨hlt, -⟩
      exact Nat.not_lt_zero f hlt
    · exact ⟨[], .nil, by simp, .nil⟩
  | succ k ih =>
    have hcall : calls[k]? = some calls[k] := List.getElem?_eq_getElem hk
    rw [List.take_add_one, hcall, Option.toList_some, takes_concat] at htaken
    obtain ⟨w₁, hbefore, hmake⟩ := htaken
    exact (ih (Nat.le_of_lt hk) hbefore).step hb hcall (Writer.offset_takes hbefore) hmake

end Booked

/-! ## § The finished table -/

/-- **`Reflects`** — a table of clauses reflects the nesting of the regions in a history.  `handlers` are the
handlers that the clauses describe; ranges are those of the code between two positions. -/
structure Reflects (calls : List Delivery) (size : Nat) (handlers : List Region)
    (clauses : List ExceptionClause) : Prop where
  /-- Every handler but the filter blocks has one clause. -/
  once : handlers.Nodup
  complete : ∀ h, h ∈ handlers ↔ ∃ kind t, kind ≠ .filterBlock ∧ Begun calls h kind (some t)
  described : List.Forall₂ (Describes calls) handlers clauses
  inOrder : ∀ c ∈ clauses, c.InOrder size
  bodies : ∀ t, Begun calls t .tryBlock none → ∃ i j, Spans calls t i j .body
  phases : ∀ h kind t, Begun calls h kind (some t) → ∃ i j, Spans calls t i j (.handler h)
  /-- The phases of a block that opens within a phase have their ranges within the range of that phase. -/
  within : ∀ q t p, OpensWithin calls q t p → ∀ p' i j i' j', Spans calls t i j p → Spans calls q i' j' p' →
    offsetAt calls i ≤ offsetAt calls i' ∧ offsetAt calls j' ≤ offsetAt calls j
  /-- The phases of one block do not overlap. -/
  siblings : ∀ t p p', p ≠ p' → ∀ i j i' j', Spans calls t i j p → Spans calls t i' j' p' →
    offsetAt calls j ≤ offsetAt calls i' ∨ offsetAt calls j' ≤ offsetAt calls i
  /-- Nor do the phases of two blocks, neither of which opens within a phase of the other. -/
  apart : ∀ t t', t ≠ t' → (∀ p, ¬ OpensWithin calls t' t p) → (∀ p, ¬ OpensWithin calls t t' p) →
    ∀ p p' i j i' j', Spans calls t i j p → Spans calls t' i' j' p' →
      offsetAt calls j ≤ offsetAt calls i' ∨ offsetAt calls j' ≤ offsetAt calls i
  /-- The clauses of a block that opens within a phase stand before the clauses that belong to the phase. -/
  innerFirst : ∀ q t p, OpensWithin calls q t p → ∀ h' kind, Begun calls h' kind (some q) →
    ∀ h, BelongsTo calls h t p → ∀ m n : Nat, handlers[m]? = some h' → handlers[n]? = some h → m < n

/-- Handlers that are closed one after the other stand in this order. -/
theorem Bracketed.lt_of_closedBefore {calls : List Delivery} (hb : Bracketed calls) {handlers : List Region}
    (hordered : handlers.Pairwise (ClosedBefore calls)) {h h' : Region} (hbefore : ClosedBefore calls h' h)
    {m n : Nat} (hm : handlers[m]? = some h') (hn : handlers[n]? = some h) : m < n := by
  obtain ⟨j', j, hlt, hclose', hclose⟩ := hbefore
  by_contra hge
  rcases Nat.lt_or_eq_of_le (Nat.not_lt.mp hge) with hnm | rfl
  · obtain ⟨hnlt, hneq⟩ := List.getElem?_eq_some_iff.mp hn
    obtain ⟨hmlt, hmeq⟩ := List.getElem?_eq_some_iff.mp hm
    have hback := List.pairwise_iff_getElem.mp hordered n m hnlt hmlt hnm
    rw [hneq, hmeq] at hback
    obtain ⟨i, i', hlt', hclose₁, hclose₁'⟩ := hback
    have heq := hb.closesAt_unique hclose hclose₁
    have heq' := hb.closesAt_unique hclose' hclose₁'
    omega
  · cases hn.symm.trans hm
    have heq := hb.closesAt_unique hclose hclose'
    omega

/-- **`reflects_of_tabulated`** — clauses that describe the handlers in the order of their closing reflect the
nesting. -/
theorem Bracketed.reflects_of_tabulated {calls : List Delivery} (hb : Bracketed calls)
    (hcomplete : Complete calls) {clauses : List ExceptionClause}
    (htable : Tabulated calls calls.length clauses) :
    ∃ handlers, Reflects calls (extent {} calls) handlers clauses := by
  obtain ⟨handlers, hordered, hmem, hdescribed⟩ := htable
  obtain ⟨hbodies, hphases⟩ := hb.exists_spans hcomplete
  have hpositions {i j i' j' : Nat} (hapart : j ≤ i' ∨ j' ≤ i) :
      offsetAt calls j ≤ offsetAt calls i' ∨ offsetAt calls j' ≤ offsetAt calls i :=
    hapart.imp offsetAt_mono offsetAt_mono
  refine ⟨handlers, ?_, fun h => ?_, hdescribed, ?_, hbodies, hphases, ?_, ?_, ?_, ?_⟩
  · refine hordered.imp fun {h h'} hbefore => ?_
    rintro rfl
    obtain ⟨j, j', hlt, hclose, hclose'⟩ := hbefore
    rw [hb.closesAt_unique hclose hclose'] at hlt
    exact Nat.lt_irrefl _ hlt
  · rw [hmem]
    constructor
    · rintro ⟨j, -, -, hhandler⟩
      exact hhandler
    · rintro ⟨kind, t, hkind, hbegun⟩
      obtain ⟨j, hclose⟩ := ended_iff.mp (hcomplete h kind (some t) hbegun)
      exact ⟨j, (List.getElem?_eq_some_iff.mp hclose).1, hclose, kind, t, hkind, hbegun⟩
  · have hboth : List.Forall₂ (fun c h => c.InOrder (extent {} calls) ∧ Describes calls h c) clauses handlers :=
      hdescribed.flip.imp fun c h hd => ⟨Describes.inOrder hb hd, hd⟩
    exact ((List.forall₂_and_left clauses handlers).mp hboth).1
  · intro q t p hwithin p' i j i' j' hspan hspan'
    obtain ⟨hstart, hstop⟩ := hb.spans_within hwithin hspan hspan'
    exact ⟨offsetAt_mono (Nat.le_of_lt hstart), offsetAt_mono (Nat.le_of_lt hstop)⟩
  · exact fun t p p' hne i j i' j' hspan hspan' => hpositions (hb.phases_apart hne hspan hspan')
  · exact fun t t' hne hout hout' p p' i j i' j' hspan hspan' =>
      hpositions (hb.constructs_apart hcomplete hne hout hout' hspan hspan')
  · intro q t p hwithin h' kind hbegun h hbelongs m n hm hn
    obtain ⟨j', -, hclose', -⟩ := (hmem h').mp (List.mem_of_getElem? hm)
    obtain ⟨j, -, hclose, -⟩ := (hmem h).mp (List.mem_of_getElem? hn)
    have hlt := hb.closed_earlier hwithin hbegun hclose' hbelongs hclose
    exact hb.lt_of_closedBefore hordered ⟨j', j, hlt, hclose', hclose⟩ hm hn

/-- A finished body has the clauses that the writer has. -/
theorem Body.Writer.clauses_finish {w : Writer} {body : MethodBody} (h : w.finish = .ok body) :
    body.clauses = w.clauses := by
  rw [finish_eq] at h
  obtain ⟨code, -, hbody⟩ := Except.bind_eq_ok_iff.mp h
  cases hopen : w.unclosed? with
  | some region =>
    rw [hopen] at hbody
    cases hbody
  | none =>
    rw [hopen] at hbody
    cases hbody
    rfl

/-- When nothing is open, everything has been closed. -/
theorem Chronicle.complete {calls : List Delivery} {t : RegionTracker} {reachable : Bool}
    (h : Chronicle calls t reachable) (hopened : t.opened = []) : Complete calls := by
  intro r kind owner hbegun
  by_contra hnever
  obtain ⟨o, ho, -⟩ := (h.live r).mp ⟨⟨kind, owner, hbegun⟩, hnever⟩
  rw [hopened] at ho
  cases ho

namespace Session

/-- **`table_reflects`** — the clauses of a finished body reflect the nesting of the regions that the builder
has opened and closed. -/
theorem table_reflects {g : TypeGraph} {system : SystemTypes} {method : MethodId} {ops : List Operation}
    {code : FinishedCode Writer} {body : MethodBody}
    (hcode : ((start g system method Writer.empty).run ops).builder.finish = .ok code)
    (hbody : code.sink.finish = .ok body) :
    let calls := ((start g system method Transcript.empty).run ops).builder.sink.calls
    Takes Writer.empty calls code.sink ∧
      ∃ handlers, Reflects calls body.code.size handlers body.clauses.toList := by
  intro calls
  have hmirrors := mirrors_writer g system method ops
  have hchronicle := chronicle_run g system method ops
  obtain ⟨hopened, -, -, rfl⟩ := Builder.finish_ok hcode
  rw [hmirrors.draft] at hopened
  have htaken : Takes Writer.empty calls ((start g system method Writer.empty).run ops).builder.sink :=
    hmirrors.taken
  have hb : Bracketed calls := hchronicle.bracketed
  have hbooked : Booked calls calls.length ((start g system method Writer.empty).run ops).builder.sink := by
    refine Booked.booked hb (Nat.le_refl _) ?_
    rw [List.take_length]
    exact htaken
  refine ⟨htaken, ?_⟩
  rw [Writer.clauses_finish hbody, Writer.size_finish htaken hbody]
  exact hb.reflects_of_tabulated (hchronicle.complete hopened) hbooked.clauses

end Session

namespace Sample

/-- A block with a filter and its catch handler, inside a block with a finally handler. -/
def nested : List Operation :=
  [.beginTry, .beginTry, .instruction .nop,
    .beginHandler ⟨1⟩ .filterBlock, .instruction .pop, .instruction (.ldcI4 1), .endRegion ⟨2⟩,
    .beginHandler ⟨1⟩ (.catchHandler system.exception), .instruction .pop, .endRegion ⟨3⟩,
    .endRegion ⟨1⟩,
    .beginHandler ⟨0⟩ .finallyHandler, .endRegion ⟨4⟩,
    .endRegion ⟨0⟩, .branch .ret]

theorem reflects_nested : ∃ code body handlers,
    ((Session.start graph system method Writer.empty).run nested).builder.finish = .ok code ∧
    code.sink.finish = .ok body ∧ body.clauses.size = 2 ∧
    Reflects ((Session.start graph system method Transcript.empty).run nested).builder.sink.calls
      body.code.size handlers body.clauses.toList := by
  have htwo : (match ((Session.start graph system method Writer.empty).run nested).builder.finish with
      | .ok code => code.sink.finish.toOption.map fun body => body.clauses.size
      | .error _ => none) = some 2 := by
    decide +kernel
  cases hcode : ((Session.start graph system method Writer.empty).run nested).builder.finish with
  | error e =>
    rw [hcode] at htwo
    cases htwo
  | ok code =>
    cases hbody : code.sink.finish with
    | error e =>
      simp only [hcode, hbody] at htwo
      cases htwo
    | ok body =>
      simp only [hcode, hbody] at htwo
      obtain ⟨handlers, hreflects⟩ := (Session.table_reflects hcode hbody).2
      exact ⟨code, body, handlers, rfl, hbody, Option.some.inj htwo, hreflects⟩

end Sample

end ManagedCode
