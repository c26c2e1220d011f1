/-
# ManagedCode.Proofs.Flow.Regions — how the open regions can lie inside each other.

The tracker is a stack that four operations change.  What each of them requires and leaves is said once,
by an `_ok` lemma.  From these follows the shape of every tracker (`Nested`): a handler lies directly on
the protected block it belongs to, which has begun to have handlers, and a protected block lies anywhere
but directly in a block that has.
-/
import ManagedCode.Flow.RegionTracker
import ManagedCode.Proofs.Stack.Application

namespace ManagedCode

namespace OpenRegion

/-- The region is a protected block at least one of whose handlers has been opened. -/
def HasHandlers (o : OpenRegion) : Prop := o.kind = .tryBlock ∧ o.handlers ≠ 0

instance (o : OpenRegion) : Decidable o.HasHandlers := inferInstanceAs (Decidable (_ ∧ _))

/-- The block after one more handler. -/
def withHandler (o : OpenRegion) (kind : RegionKind) : OpenRegion :=
  { o with
    handlers := o.handlers + 1
    awaitsCatch := false
    hasExclusive := o.hasExclusive || kind.isExclusive }

theorem hasHandlers_withHandler {o : OpenRegion} (kind : RegionKind) (h : o.kind = .tryBlock) :
    (o.withHandler kind).HasHandlers := ⟨h, Nat.succ_ne_zero _⟩

end OpenRegion

theorem RegionKind.isHandler_iff {kind : RegionKind} : kind.isHandler = true ↔ kind ≠ .tryBlock := by
  cases kind <;> simp [isHandler]

namespace RegionTracker

/-- The current point lies directly in a protected block and after its first handler has begun: between
two handlers, or after the last. -/
def BetweenHandlers (t : RegionTracker) : Prop := ∃ o ∈ t.innermost?, o.HasHandlers

instance (t : RegionTracker) : Decidable t.BetweenHandlers :=
  inferInstanceAs (Decidable (∃ o ∈ t.innermost?, o.HasHandlers))

theorem innermost?_of_opened {t : RegionTracker} {o : OpenRegion} {rest : List OpenRegion}
    (h : t.opened = o :: rest) : t.innermost? = some o := by
  rw [innermost?, h]
  rfl

theorem betweenHandlers_iff {t : RegionTracker} {o : OpenRegion} {rest : List OpenRegion}
    (h : t.opened = o :: rest) : t.BetweenHandlers ↔ o.HasHandlers := by
  simp [BetweenHandlers, innermost?_of_opened h]

/-! ## § What the operations require and leave -/

theorem beginTry_ok {t t' : RegionTracker} {endLabel : Label} {region : Region}
    (h : t.beginTry endLabel = .ok (region, t')) :
    ¬ t.BetweenHandlers ∧ region = ⟨t.next⟩ ∧
      t' = { opened := { region := ⟨t.next⟩, kind := .tryBlock, tryRegion := ⟨t.next⟩, endLabel } :: t.opened
             next := t.next + 1 } := by
  simp only [beginTry] at h
  split at h
  · cases h
  · rename_i hnone
    cases h
    refine ⟨?_, rfl, rfl⟩
    rintro ⟨o, ho, hkind, hhandlers⟩
    have hfalse := Option.filter_eq_none_iff.mp hnone o ho
    simp [hkind, hhandlers] at hfalse

theorem innermostTry_ok {t : RegionTracker} {tryRegion : Region} {o : OpenRegion}
    (h : t.innermostTry tryRegion = .ok o) :
    ∃ rest, t.opened = o :: rest ∧ o.region = tryRegion ∧ o.kind = .tryBlock := by
  simp only [innermostTry, innermost?] at h
  split at h
  · rename_i o' hhead
    split at h
    · rename_i hdirect
      cases h
      rw [Bool.and_eq_true, beq_iff_eq, beq_iff_eq] at hdirect
      obtain ⟨rest, hopened⟩ := List.head?_eq_some_iff.mp hhead
      exact ⟨rest, hopened, hdirect⟩
    · cases h
  · cases h

theorem checkHandler_eq (t : RegionTracker) (tryRegion : Region) (kind : RegionKind) :
    t.checkHandler tryRegion kind = t.innermostTry tryRegion >>= fun o =>
      if !kind.isHandler then .error .tryAsHandler
      else if o.awaitsCatch && !kind.isCatch then .error (.filterNeedsCatch tryRegion)
      else if o.hasExclusive || (kind.isExclusive && o.handlers != 0) then
        .error (.exclusiveHandler tryRegion)
      else .ok { endLabel := o.endLabel, endsBlock := o.handlers == 0 } := rfl

/-- The block that a handler can be opened for, and what opening it involves. -/
theorem checkHandler_ok {t : RegionTracker} {tryRegion : Region} {kind : RegionKind}
    {entry : HandlerEntry} (h : t.checkHandler tryRegion kind = .ok entry) :
    ∃ o rest, t.opened = o :: rest ∧ o.region = tryRegion ∧ o.kind = .tryBlock ∧
      kind ≠ .tryBlock ∧ entry = ⟨o.endLabel, o.handlers == 0⟩ := by
  rw [checkHandler_eq] at h
  obtain ⟨o, ho, hrest⟩ := Except.bind_eq_ok_iff.mp h
  obtain ⟨rest, hopened, hregion, hblock⟩ := innermostTry_ok ho
  split at hrest
  · cases hrest
  · rename_i hhandler
    split at hrest
    · cases hrest
    · split at hrest
      · cases hrest
      · cases hrest
        refine ⟨o, rest, hopened, hregion, hblock, ?_, rfl⟩
        exact RegionKind.isHandler_iff.mp (by simpa using hhandler)

/-- A block that waits for a catch handler admits nothing else. -/
theorem checkHandler_awaited {t : RegionTracker} {tryRegion : Region} {kind : RegionKind}
    {entry : HandlerEntry} {o : OpenRegion} {rest : List OpenRegion}
    (h : t.checkHandler tryRegion kind = .ok entry) (hopened : t.opened = o :: rest)
    (hawaits : o.awaitsCatch = true) : kind.isCatch = true := by
  rw [checkHandler_eq] at h
  obtain ⟨o', ho', hrest⟩ := Except.bind_eq_ok_iff.mp h
  obtain ⟨rest', hopened', -, -⟩ := innermostTry_ok ho'
  cases hopened.symm.trans hopened'
  cases hcatch : kind.isCatch with
  | true => rfl
  | false =>
    rw [hawaits, hcatch] at hrest
    split at hrest <;> cases hrest

/-- What is checked is all that opening a handler needs. -/
theorem beginHandler_of_check {t : RegionTracker} {tryRegion : Region} {kind : RegionKind}
    {entry : HandlerEntry} (h : t.checkHandler tryRegion kind = .ok entry) :
    ∃ opened, t.beginHandler tryRegion kind = .ok opened := by
  rw [beginHandler, h]
  exact ⟨_, rfl⟩

/-- Opening a handler puts it on its block, which has one handler more. -/
theorem beginHandler_ok {t t' : RegionTracker} {tryRegion region : Region} {kind : RegionKind}
    (h : t.beginHandler tryRegion kind = .ok (region, t')) :
    ∃ o rest, t.opened = o :: rest ∧ o.region = tryRegion ∧ o.kind = .tryBlock ∧
      kind ≠ .tryBlock ∧ region = ⟨t.next⟩ ∧
      t' = { opened := { region := ⟨t.next⟩, kind, tryRegion, endLabel := o.endLabel } ::
               o.withHandler kind :: rest
             next := t.next + 1 } := by
  obtain ⟨entry, hentry, hrest⟩ := Except.bind_eq_ok_iff.mp h
  obtain ⟨o, rest, hopened, hregion, hblock, hkind, rfl⟩ := checkHandler_ok hentry
  cases hrest
  refine ⟨o, rest, hopened, hregion, hblock, hkind, rfl, ?_⟩
  simp only [updateInnermost, hopened]
  rfl

theorem checkEnd_eq (t : RegionTracker) (region : Region) :
    t.checkEnd region =
      match t.innermost? with
      | none => .error (.nothingToClose region)
      | some o =>
        if o.region != region then .error (.closedOutOfOrder region o.region o.kind)
        else if o.kind == .tryBlock then
          if o.handlers == 0 then .error (.noHandlers region)
          else if o.awaitsCatch then .error (.filterWithoutCatch region)
          else .ok o
        else .ok o := rfl

/-- What can be closed is the innermost region, and a block has handlers by then. -/
theorem checkEnd_ok {t : RegionTracker} {region : Region} {o : OpenRegion}
    (h : t.checkEnd region = .ok o) :
    ∃ rest, t.opened = o :: rest ∧ o.region = region ∧ (o.kind = .tryBlock → o.HasHandlers) := by
  rw [checkEnd_eq] at h
  split at h
  · cases h
  · rename_i o' hhead
    obtain ⟨rest, hopened⟩ := List.head?_eq_some_iff.mp hhead
    split at h
    · cases h
    · rename_i hregion
      rw [bne_iff_ne, not_not] at hregion
      split at h
      · split at h
        · cases h
        · rename_i hkind hhandlers
          split at h
          · cases h
          · cases h
            exact ⟨rest, hopened, hregion, fun hblock => ⟨hblock, by simpa using hhandlers⟩⟩
      · rename_i hkind
        cases h
        exact ⟨rest, hopened, hregion, fun hblock => absurd (beq_iff_eq.mpr hblock) hkind⟩

/-- A block that waits for a catch handler cannot be closed. -/
theorem checkEnd_awaited {t : RegionTracker} {region : Region} {o : OpenRegion}
    (h : t.checkEnd region = .ok o) (hkind : o.kind = .tryBlock) : o.awaitsCatch = false := by
  obtain ⟨rest, hopened, hregion, hhas⟩ := checkEnd_ok h
  rw [checkEnd_eq, innermost?_of_opened hopened] at h
  cases hawaits : o.awaitsCatch with
  | false => rfl
  | true =>
    have hhandlers := (hhas hkind).2
    simp [hregion, hkind, hhandlers, hawaits] at h

/-- Closing a region takes it off; a filter leaves its block waiting for the catch handler. -/
theorem endRegion_ok {t t' : RegionTracker} {region : Region} {o : OpenRegion}
    (h : t.endRegion region = .ok (o, t')) :
    t.checkEnd region = .ok o ∧ t'.next = t.next ∧
      ∃ rest, t.opened = o :: rest ∧ (t'.opened = rest ∨ ∃ p outer, o.kind = .filterBlock ∧
        rest = p :: outer ∧ t'.opened = { p with awaitsCatch := true } :: outer) := by
  obtain ⟨o', ho', hrest⟩ := Except.bind_eq_ok_iff.mp h
  obtain ⟨rest, hopened, -, -⟩ := checkEnd_ok ho'
  cases hrest
  refine ⟨ho', ?_, rest, hopened, ?_⟩
  · split
    · rw [updateInnermost]
      split <;> rfl
    · rfl
  · split
    · rename_i hfilter
      rw [updateInnermost, hopened]
      cases rest with
      | nil => exact .inl rfl
      | cons p outer => exact .inr ⟨p, outer, beq_iff_eq.mp hfilter, rfl, rfl⟩
    · rw [hopened]
      exact .inl rfl

/-- The block under a filter waits for the catch handler. -/
theorem endRegion_filter {t t' : RegionTracker} {region : Region} {o p : OpenRegion}
    {outer : List OpenRegion} (h : t.endRegion region = .ok (o, t')) (hkind : o.kind = .filterBlock)
    (hopened : t.opened = o :: p :: outer) : t'.opened = { p with awaitsCatch := true } :: outer := by
  obtain ⟨o', ho', hrest⟩ := Except.bind_eq_ok_iff.mp h
  cases hrest
  rw [if_pos (beq_iff_eq.mpr hkind), updateInnermost, hopened]
  rfl

/-! ## § The shape of a tracker -/

/-- **`Nested`** — the open regions, innermost first: a handler directly on its block, which has begun to
have handlers, and a block anywhere but directly in such a block. -/
inductive Nested : List OpenRegion → Prop
  | nil : Nested []
  | block {o : OpenRegion} {rest : List OpenRegion} : o.kind = .tryBlock →
      (∀ p ∈ rest.head?, ¬ p.HasHandlers) → Nested rest → Nested (o :: rest)
  | handler {h o : OpenRegion} {rest : List OpenRegion} : h.kind ≠ .tryBlock →
      h.tryRegion = o.region → h.endLabel = o.endLabel → o.HasHandlers → Nested (o :: rest) →
      Nested (h :: o :: rest)

/-- What lies under a block, whatever the block has become. -/
theorem Nested.under_block {o : OpenRegion} {rest : List OpenRegion} (h : Nested (o :: rest))
    (hkind : o.kind = .tryBlock) : (∀ p ∈ rest.head?, ¬ p.HasHandlers) ∧ Nested rest := by
  cases h with
  | block _ hhead hrest => exact ⟨hhead, hrest⟩
  | handler hne => exact absurd hkind hne

theorem Nested.tail {o : OpenRegion} {rest : List OpenRegion} (h : Nested (o :: rest)) : Nested rest := by
  cases h with
  | block _ _ hrest => exact hrest
  | handler _ _ _ _ hrest => exact hrest

/-- What a handler lies on. -/
theorem Nested.under_handler {h : OpenRegion} {rest : List OpenRegion} (hn : Nested (h :: rest))
    (hkind : h.kind ≠ .tryBlock) :
    ∃ o outer, rest = o :: outer ∧ h.tryRegion = o.region ∧ o.HasHandlers := by
  cases hn with
  | block hblock => exact absurd hblock hkind
  | @handler _ o outer _ howner _ hhas _ => exact ⟨o, outer, rfl, howner, hhas⟩

theorem Nested.beginTry {t t' : RegionTracker} (hn : Nested t.opened) {endLabel : Label}
    {region : Region} (h : t.beginTry endLabel = .ok (region, t')) : Nested t'.opened := by
  obtain ⟨hfirst, -, rfl⟩ := beginTry_ok h
  exact .block rfl (fun p hp hhas => hfirst ⟨p, hp, hhas⟩) hn

theorem Nested.beginHandler {t t' : RegionTracker} (hn : Nested t.opened) {tryRegion region : Region}
    {kind : RegionKind} (h : t.beginHandler tryRegion kind = .ok (region, t')) :
    Nested t'.opened := by
  obtain ⟨o, rest, hopened, hregion, hblock, hkind, -, rfl⟩ := beginHandler_ok h
  rw [hopened] at hn
  obtain ⟨hhead, hrest⟩ := hn.under_block hblock
  refine .handler hkind hregion.symm rfl (OpenRegion.hasHandlers_withHandler kind hblock) ?_
  exact .block hblock hhead hrest

theorem Nested.endRegion {t t' : RegionTracker} (hn : Nested t.opened) {region : Region}
    {o : OpenRegion} (h : t.endRegion region = .ok (o, t')) : Nested t'.opened := by
  obtain ⟨-, -, rest, hopened, hcases⟩ := endRegion_ok h
  rw [hopened] at hn
  rcases hcases with hopened' | ⟨p, outer, hfilter, rfl, hopened'⟩
  · rw [hopened']
    exact hn.tail
  · -- The block under a filter changes, but not in what matters to the shape.
    rw [hopened']
    cases hn with
    | block hblock => cases hfilter.symm.trans hblock
    | handler _ _ _ hhas hrest =>
      obtain ⟨hhead, houter⟩ := hrest.under_block hhas.1
      exact .block hhas.1 hhead houter

/-- Where a block was closed, the block around it has no handler yet. -/
theorem Nested.not_betweenHandlers_endRegion {t t' : RegionTracker} (hn : Nested t.opened) {region : Region}
    {o : OpenRegion} (h : t.endRegion region = .ok (o, t')) (hkind : o.kind = .tryBlock) :
    ¬ t'.BetweenHandlers := by
  obtain ⟨-, -, rest, hopened, hcases⟩ := endRegion_ok h
  rw [hopened] at hn
  rcases hcases with hopened' | ⟨-, -, hfilter, -, -⟩
  · rintro ⟨p, hp, hhas⟩
    rw [innermost?, hopened'] at hp
    exact (hn.under_block hkind).1 p hp hhas
  · cases hkind.symm.trans hfilter

/-- A new block and a new handler have no handlers of their own. -/
theorem not_betweenHandlers_beginHandler {t t' : RegionTracker} {tryRegion region : Region}
    {kind : RegionKind} (hbegin : t.beginHandler tryRegion kind = .ok (region, t')) :
    ¬ t'.BetweenHandlers := by
  obtain ⟨o, rest, -, -, -, hkind, -, rfl⟩ := RegionTracker.beginHandler_ok hbegin
  rw [RegionTracker.betweenHandlers_iff rfl]
  exact fun hhas => hkind hhas.1

theorem not_betweenHandlers_beginTry {t t' : RegionTracker} {endLabel : Label} {region : Region}
    (hbegin : t.beginTry endLabel = .ok (region, t')) : ¬ t'.BetweenHandlers := by
  obtain ⟨-, -, rfl⟩ := RegionTracker.beginTry_ok hbegin
  rw [RegionTracker.betweenHandlers_iff rfl]
  exact fun hhas => hhas.2 rfl

/-! ## § The ends of the open constructs -/

/-- The labels right after the open protected blocks and their handlers, innermost first. -/
def endLabels (opened : List OpenRegion) : List Label :=
  (opened.filter fun o => o.kind == .tryBlock).map OpenRegion.endLabel

theorem endLabels_block {o : OpenRegion} (h : o.kind = .tryBlock) (rest : List OpenRegion) :
    endLabels (o :: rest) = o.endLabel :: endLabels rest := by
  simp [endLabels, h]

theorem endLabels_handler {o : OpenRegion} (h : o.kind ≠ .tryBlock) (rest : List OpenRegion) :
    endLabels (o :: rest) = endLabels rest := by
  simp [endLabels, h]

/-- A handler shares the label of the block that it lies on. -/
theorem Nested.endLabel_mem {opened : List OpenRegion} (hn : Nested opened) :
    ∀ o ∈ opened, o.endLabel ∈ endLabels opened := by
  induction hn with
  | nil => simp
  | block hblock _ _ ih =>
    intro o ho
    rw [endLabels_block hblock]
    rcases List.mem_cons.mp ho with rfl | hrest
    · exact List.mem_cons_self
    · exact List.mem_cons_of_mem _ (ih o hrest)
  | handler hkind _ hshared _ _ ih =>
    intro o ho
    rw [endLabels_handler hkind]
    rcases List.mem_cons.mp ho with rfl | hrest
    · rw [hshared]
      exact ih _ List.mem_cons_self
    · exact ih o hrest

theorem endLabels_beginHandler {t t' : RegionTracker} {tryRegion region : Region} {kind : RegionKind}
    (h : t.beginHandler tryRegion kind = .ok (region, t')) : endLabels t'.opened = endLabels t.opened := by
  obtain ⟨o, rest, hopened, -, hblock, hkind, -, rfl⟩ := beginHandler_ok h
  have hblock' : (o.withHandler kind).kind = .tryBlock := hblock
  rw [hopened, endLabels_handler hkind, endLabels_block hblock', endLabels_block hblock]
  rfl

theorem endLabels_endHandler {t t' : RegionTracker} {region : Region} {o : OpenRegion}
    (h : t.endRegion region = .ok (o, t')) (hkind : o.kind ≠ .tryBlock) :
    endLabels t'.opened = endLabels t.opened := by
  obtain ⟨-, -, rest, hopened, hcases⟩ := endRegion_ok h
  rw [hopened, endLabels_handler hkind]
  rcases hcases with hopened' | ⟨p, outer, -, rfl, hopened'⟩
  · rw [hopened']
  · rw [hopened']
    by_cases hblock : p.kind = .tryBlock
    · have hblock' : ({ p with awaitsCatch := true } : OpenRegion).kind = .tryBlock := hblock
      rw [endLabels_block hblock, endLabels_block hblock']
    · have hblock' : ({ p with awaitsCatch := true } : OpenRegion).kind ≠ .tryBlock := hblock
      rw [endLabels_handler hblock, endLabels_handler hblock']

theorem endLabels_endTry {t t' : RegionTracker} {region : Region} {o : OpenRegion}
    (h : t.endRegion region = .ok (o, t')) (hkind : o.kind = .tryBlock) :
    endLabels t.opened = o.endLabel :: endLabels t'.opened := by
  obtain ⟨-, -, rest, hopened, hcases⟩ := endRegion_ok h
  rcases hcases with hopened' | ⟨-, -, hfilter, -, -⟩
  · rw [hopened, hopened', endLabels_block hkind]
  · cases hkind.symm.trans hfilter

end RegionTracker

end ManagedCode
