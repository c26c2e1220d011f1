/-
# ManagedCode.Proofs.Flow.Labels — what the label table says about each label.

Every operation on the table is described by the states of all labels afterwards: one changes, the others
keep theirs.  An edge is `LabelState.meet`, which leaves a trace only where no edge has been before, and
repeating an edge changes nothing.
-/
import ManagedCode.Flow.LabelTable
import ManagedCode.Proofs.Stack.Application

namespace ManagedCode

/-- An edge with the stack may join one with the slots.  Edges from unreachable code always may. -/
def AbstractStack.Fits (g : TypeGraph) (incoming : AbstractStack) (first : List TypeTag) : Prop :=
  ∀ slots ∈ incoming.slots?, slotsCompatible g slots first = true

/-- The state of a label after an edge with the given stack. -/
def LabelState.meet (incoming : AbstractStack) (state : LabelState) : LabelState :=
  match incoming with
  | .unreachable => state
  | .reachable slots => state.receive slots

namespace LabelState

@[simp] theorem meet_meet (incoming : AbstractStack) (state : LabelState) :
    (state.meet incoming).meet incoming = state.meet incoming := by
  cases incoming with
  | unreachable => rfl
  | reachable slots =>
    cases state with
    | pending => rfl
    | bound => rfl
    | placed recorded => cases recorded <;> rfl

@[simp] theorem isPlaced_meet (incoming : AbstractStack) (state : LabelState) :
    (state.meet incoming).isPlaced = state.isPlaced := by
  cases incoming with
  | unreachable => rfl
  | reachable slots =>
    cases state with
    | pending => rfl
    | bound => rfl
    | placed recorded => cases recorded <;> rfl

/-- What further edges must be compatible with: the old record, or else the stack of the edge. -/
theorem record?_meet_eq (incoming : AbstractStack) (state : LabelState) :
    (state.meet incoming).record? = state.record?.or incoming.slots? := by
  cases incoming with
  | unreachable => exact Option.or_none.symm
  | reachable slots =>
    cases state with
    | pending => rfl
    | bound => rfl
    | placed recorded => cases recorded <;> rfl

end LabelState

namespace LabelTable

/-! ## § The states after each operation -/

theorem state?_define (t : LabelTable) (l : Label) :
    t.define.2.state? l = if l = t.fresh then some .pending else t.state? l := by
  obtain ⟨i⟩ := l
  simp only [define, state?, fresh, Array.getElem?_push, Label.mk.injEq]

theorem state?_setState (t : LabelTable) (l l' : Label) (state : LabelState) :
    (t.setState l state).state? l' =
      if l' = l then (t.state? l).map fun _ => state else t.state? l' := by
  obtain ⟨i⟩ := l
  obtain ⟨j⟩ := l'
  simp only [setState, state?, Array.getElem?_setIfInBounds, Label.mk.injEq]
  by_cases hij : i = j
  · subst hij
    by_cases hlt : i < t.states.size
    · simp [hlt]
    · simp [hlt]
  · rw [if_neg hij, if_neg (Ne.symm hij)]

theorem state?_recordEdge (t : LabelTable) (l l' : Label) (incoming : AbstractStack) :
    (t.recordEdge l incoming).state? l' =
      if l' = l then (t.state? l).map (·.meet incoming) else t.state? l' := by
  cases incoming with
  | unreachable =>
    have hsame : t.recordEdge l .unreachable = t := by
      unfold recordEdge
      cases t.state? l <;> rfl
    rw [hsame]
    split
    · rename_i heq
      rw [heq]
      cases t.state? l <;> rfl
    · rfl
  | reachable slots =>
    cases hstate : t.state? l with
    | none =>
      have hsame : t.recordEdge l (.reachable slots) = t := by
        unfold recordEdge
        rw [hstate]
      rw [hsame]
      split
      · rename_i heq
        rw [heq, hstate]
        rfl
      · rfl
    | some state =>
      have hset : t.recordEdge l (.reachable slots) = t.setState l (state.receive slots) := by
        unfold recordEdge
        rw [hstate]
      rw [hset, state?_setState, hstate]
      rfl

/-- The states after an edge into each of a list of labels. -/
theorem state?_recordEdges (incoming : AbstractStack) (targets : List Label) (t : LabelTable)
    (l : Label) :
    (targets.foldl (fun t l => t.recordEdge l incoming) t).state? l =
      if l ∈ targets then (t.state? l).map (·.meet incoming) else t.state? l := by
  induction targets generalizing t with
  | nil => simp
  | cons target rest ih =>
    rw [List.foldl_cons, ih, state?_recordEdge]
    by_cases heq : l = target
    · subst heq
      by_cases hrest : l ∈ rest
      · simp [hrest, Option.map_map, Function.comp_def]
      · simp [hrest]
    · simp [heq]

/-- The label that is defined next is not known yet. -/
theorem state?_fresh (t : LabelTable) : t.state? t.fresh = none := by
  simp [state?, fresh]

/-! ## § Known labels -/

/-- The label was handed out by the table. -/
def Knows (t : LabelTable) (l : Label) : Prop := ∃ state, t.state? l = some state

theorem not_knows_fresh (t : LabelTable) : ¬ t.Knows t.fresh := by
  rintro ⟨state, hstate⟩
  cases (state?_fresh t).symm.trans hstate

theorem knows_define_fresh (t : LabelTable) : t.define.2.Knows t.fresh :=
  ⟨.pending, by rw [state?_define, if_pos rfl]⟩

/-- A new label changes nothing about the others. -/
theorem state?_define_of_knows {t : LabelTable} {l : Label} (h : t.Knows l) :
    t.define.2.state? l = t.state? l := by
  rw [state?_define, if_neg]
  rintro rfl
  exact t.not_knows_fresh h

theorem Knows.define {t : LabelTable} {l : Label} (h : t.Knows l) : t.define.2.Knows l := by
  rw [Knows, state?_define_of_knows h]
  exact h

theorem Knows.recordEdges {t : LabelTable} {l : Label} (h : t.Knows l) (incoming : AbstractStack)
    (targets : List Label) : (targets.foldl (fun t l => t.recordEdge l incoming) t).Knows l := by
  obtain ⟨state, hstate⟩ := h
  rw [Knows, state?_recordEdges, hstate]
  split
  · exact ⟨_, rfl⟩
  · exact ⟨_, rfl⟩

/-! ## § Recorded stacks -/

/-- The slots that every further edge into the label must be compatible with. -/
def Records (t : LabelTable) (l : Label) (slots : List TypeTag) : Prop :=
  ∃ state, t.state? l = some state ∧ state.record? = some slots

theorem Records.knows {t : LabelTable} {l : Label} {slots : List TypeTag} (h : t.Records l slots) :
    t.Knows l := by
  obtain ⟨state, hstate, -⟩ := h
  exact ⟨state, hstate⟩

theorem Records.define {t : LabelTable} {l : Label} {slots : List TypeTag} (h : t.Records l slots) :
    t.define.2.Records l slots := by
  rw [Records, state?_define_of_knows h.knows]
  exact h

theorem record?_meet {state : LabelState} {slots : List TypeTag} (h : state.record? = some slots)
    (incoming : AbstractStack) : state.meet incoming = state := by
  cases incoming with
  | unreachable => rfl
  | reachable found =>
    cases state with
    | pending => cases h
    | bound => rfl
    | placed recorded =>
      cases recorded with
      | unreachable => cases h
      | reachable => rfl

theorem Records.recordEdges {t : LabelTable} {l : Label} {slots : List TypeTag} (h : t.Records l slots)
    (incoming : AbstractStack) (targets : List Label) :
    (targets.foldl (fun t l => t.recordEdge l incoming) t).Records l slots := by
  obtain ⟨state, hstate, hrecord⟩ := h
  refine ⟨state, ?_, hrecord⟩
  rw [state?_recordEdges, hstate, Option.map_some, record?_meet hrecord]
  split <;> rfl

/-- After a reachable edge the label has a record: the stack of the edge if it had none before. -/
theorem records_of_edge {t : LabelTable} {l : Label} (h : t.Knows l) (found : List TypeTag)
    {targets : List Label} (hl : l ∈ targets) :
    ∃ slots, (targets.foldl (fun t l => t.recordEdge l (.reachable found)) t).Records l slots ∧
      (slots = found ∨ t.Records l slots) := by
  obtain ⟨state, hstate⟩ := h
  have hmet : (targets.foldl (fun t l => t.recordEdge l (.reachable found)) t).state? l =
      some (state.meet (.reachable found)) := by
    rw [state?_recordEdges, if_pos hl, hstate]
    rfl
  cases hrecord : state.record? with
  | some slots =>
    rw [record?_meet hrecord] at hmet
    exact ⟨slots, ⟨state, hmet, hrecord⟩, .inr ⟨state, hstate, hrecord⟩⟩
  | none =>
    refine ⟨found, ⟨_, hmet, ?_⟩, .inl rfl⟩
    rw [LabelState.record?_meet_eq, hrecord]
    rfl

/-! ## § What the checks establish -/

/-- **`checkEdge_ok_iff`** — an edge is accepted if the label is known and the stacks fit, should both the
edge and some earlier one be reachable. -/
theorem checkEdge_ok_iff {g : TypeGraph} {t : LabelTable} {l : Label} {incoming : AbstractStack} :
    t.checkEdge g l incoming = .ok () ↔ ∃ state, t.state? l = some state ∧
      ∀ found expected, incoming = .reachable found → state.record? = some expected →
        AbstractStack.slotsCompatible g found expected = true := by
  unfold checkEdge
  cases hstate : t.state? l with
  | none => simp
  | some state =>
    cases incoming with
    | unreachable => simp [AbstractStack.slots?]
    | reachable found =>
      cases hrecord : state.record? with
      | none => simp [AbstractStack.slots?, hrecord]
      | some expected =>
        by_cases hfit : AbstractStack.slotsCompatible g found expected = true
        · simp [AbstractStack.slots?, hrecord, hfit]
        · simp [AbstractStack.slots?, hrecord, hfit]

theorem state_ok {t : LabelTable} {l : Label} {state : LabelState} (h : t.state l = .ok state) :
    t.state? l = some state := by
  rw [LabelTable.state] at h
  cases hstate : t.state? l with
  | none =>
    rw [hstate] at h
    cases h
  | some state' =>
    rw [hstate] at h
    cases h
    rfl

theorem state_eq_ok {t : LabelTable} {l : Label} {state : LabelState} (h : t.state? l = some state) :
    t.state l = .ok state := by
  rw [LabelTable.state, h]

section Checks

variable {g : TypeGraph} {t t' : LabelTable} {l : Label} {incoming : AbstractStack}

/-- The same in terms of stacks. -/
theorem checkEdge_iff : t.checkEdge g l incoming = .ok () ↔
    ∃ state, t.state? l = some state ∧ ∀ first ∈ state.record?, incoming.Fits g first := by
  rw [checkEdge_ok_iff]
  refine exists_congr fun state => and_congr_right fun _ => ?_
  constructor
  · intro h first hfirst slots hslots
    cases incoming with
    | unreachable => cases hslots
    | reachable found =>
      cases hslots
      exact h slots first rfl hfirst
  · intro h found first hincoming hfirst
    exact h first hfirst found (by rw [hincoming]; rfl)

theorem reconcile_iff : t.reconcile g l incoming = .ok t' ↔
    t.checkEdge g l incoming = .ok () ∧ t' = t.recordEdge l incoming := by
  rw [reconcile, Except.bind_eq_ok_iff]
  constructor
  · rintro ⟨⟨⟩, hedge, heq⟩
    cases heq
    exact ⟨hedge, rfl⟩
  · rintro ⟨hedge, rfl⟩
    exact ⟨(), hedge, rfl⟩

/-- What is recorded for a label after the first reachable edge into it, if there has been one. -/
def recordOf (first : Option (List TypeTag)) : AbstractStack := first.elim .unreachable .reachable

/-- What the table has on record for a label that it knows. -/
theorem recorded?_getD {state : LabelState} (h : t.state? l = some state) :
    (t.recorded? l).getD .unreachable = recordOf state.record? := by
  rw [recorded?, h]
  cases state with
  | pending => rfl
  | bound slots => rfl
  | placed recorded => cases recorded <;> rfl

theorem place_eq (g : TypeGraph) (t : LabelTable) (l : Label) (fallThrough : AbstractStack) :
    t.place g l fallThrough = t.state l >>= fun state =>
      if state.isPlaced then .error (.duplicateLabel l)
      else t.reconcile g l fallThrough >>= fun t' =>
        .ok ((t'.recorded? l).getD .unreachable,
          t'.setState l (.placed ((t'.recorded? l).getD .unreachable))) := rfl

/-- **`place_iff`** — a label gets a place once, if the fall-through may join the first edge into it.  It resumes
with the record, which is the fall-through if there has been no edge before. -/
theorem place_iff {resume : AbstractStack} : t.place g l incoming = .ok (resume, t') ↔
    ∃ state, t.state? l = some state ∧ state.isPlaced = false ∧
      (∀ first ∈ state.record?, incoming.Fits g first) ∧
      resume = recordOf (state.record?.or incoming.slots?) ∧
      t' = (t.recordEdge l incoming).setState l (.placed resume) := by
  have hrecord {state : LabelState} (hstate : t.state? l = some state) :
      ((t.recordEdge l incoming).recorded? l).getD .unreachable =
        recordOf (state.record?.or incoming.slots?) := by
    have hmet : (t.recordEdge l incoming).state? l = some (state.meet incoming) := by
      rw [state?_recordEdge, if_pos rfl, hstate]
      rfl
    rw [recorded?_getD hmet, LabelState.record?_meet_eq]
  rw [place_eq, Except.bind_eq_ok_iff]
  constructor
  · rintro ⟨state, hstate, hrest⟩
    have hstate := state_ok hstate
    split at hrest
    · cases hrest
    · rename_i hplaced
      obtain ⟨t₁, hreconcile, heq⟩ := Except.bind_eq_ok_iff.mp hrest
      obtain ⟨hedge, rfl⟩ := reconcile_iff.mp hreconcile
      obtain ⟨state', hstate', hfits⟩ := checkEdge_iff.mp hedge
      cases hstate.symm.trans hstate'
      rw [hrecord hstate] at heq
      cases heq
      exact ⟨state, hstate, Bool.eq_false_iff.mpr hplaced, hfits, rfl, rfl⟩
  · rintro ⟨state, hstate, hplaced, hfits, rfl, rfl⟩
    refine ⟨state, state_eq_ok hstate, ?_⟩
    rw [hplaced, if_neg Bool.false_ne_true, Except.bind_eq_ok_iff]
    refine ⟨_, reconcile_iff.mpr ⟨checkEdge_iff.mpr ⟨state, hstate, hfits⟩, rfl⟩, ?_⟩
    rw [hrecord hstate]

end Checks

/-- **`place_ok`** — a label gets a place once.  It resumes with the stack of the first edge, which is the
fall-through if no branch came before it. -/
theorem place_ok {g : TypeGraph} {t t' : LabelTable} {l : Label} {fallThrough resume : AbstractStack}
    (h : t.place g l fallThrough = .ok (resume, t')) :
    ((t.state? l = some .pending ∧ resume = fallThrough) ∨
      ∃ slots, t.state? l = some (.bound slots) ∧ resume = .reachable slots ∧
        ∀ found, fallThrough = .reachable found →
          AbstractStack.slotsCompatible g found slots = true) ∧
    ∀ l', t'.state? l' = if l' = l then some (.placed resume) else t.state? l' := by
  obtain ⟨state, hstate, hunplaced, hfits, rfl, rfl⟩ := place_iff.mp h
  constructor
  · cases state with
    | placed => cases hunplaced
    | pending =>
      refine .inl ⟨hstate, ?_⟩
      cases fallThrough <;> rfl
    | bound slots =>
      refine .inr ⟨slots, hstate, rfl, fun found hfound => ?_⟩
      exact hfits slots rfl found (by rw [hfound]; rfl)
  · intro l'
    rw [state?_setState, state?_recordEdge, state?_recordEdge, if_pos rfl, hstate]
    by_cases heq : l' = l
    · rw [if_pos heq, if_pos heq]
      rfl
    · rw [if_neg heq, if_neg heq, if_neg heq]

theorem Knows.place {g : TypeGraph} {t t' : LabelTable} {l l' : Label}
    {fallThrough resume : AbstractStack} (hplace : t.place g l fallThrough = .ok (resume, t'))
    (h : t.Knows l') : t'.Knows l' := by
  rw [Knows, (place_ok hplace).2]
  split
  · exact ⟨_, rfl⟩
  · exact h

theorem Records.place {g : TypeGraph} {t t' : LabelTable} {l l' : Label} {slots : List TypeTag}
    {fallThrough resume : AbstractStack} (hplace : t.place g l fallThrough = .ok (resume, t'))
    (h : t.Records l' slots) : t'.Records l' slots := by
  obtain ⟨hresume, hstates⟩ := place_ok hplace
  rw [Records, hstates]
  by_cases heq : l' = l
  · subst heq
    rw [if_pos rfl]
    obtain ⟨state, hstate, hrecord⟩ := h
    rcases hresume with ⟨hpending, -⟩ | ⟨recorded, hbound, rfl, -⟩
    · cases hstate.symm.trans hpending
      cases hrecord
    · cases hstate.symm.trans hbound
      exact ⟨_, rfl, hrecord⟩
  · rw [if_neg heq]
    exact h

/-! ## § Places -/

theorem isPlaced_define (t : LabelTable) (l : Label) : t.define.2.isPlaced l = t.isPlaced l := by
  rw [isPlaced, isPlaced, state?_define]
  by_cases hfresh : l = t.fresh
  · rw [if_pos hfresh, hfresh, state?_fresh]
    rfl
  · rw [if_neg hfresh]

theorem isPlaced_recordEdges (incoming : AbstractStack) (targets : List Label) (t : LabelTable)
    (l : Label) : (targets.foldl (fun t l => t.recordEdge l incoming) t).isPlaced l = t.isPlaced l := by
  rw [isPlaced, isPlaced, state?_recordEdges]
  split
  · cases t.state? l with
    | none => rfl
    | some state => exact LabelState.isPlaced_meet incoming state
  · rfl

theorem isPlaced_place {g : TypeGraph} {t t' : LabelTable} {l : Label}
    {fallThrough resume : AbstractStack} (hplace : t.place g l fallThrough = .ok (resume, t'))
    (l' : Label) : t'.isPlaced l' = (decide (l' = l) || t.isPlaced l') := by
  rw [isPlaced, isPlaced, (place_ok hplace).2]
  by_cases heq : l' = l
  · rw [if_pos heq, decide_eq_true heq]
    rfl
  · rw [if_neg heq, decide_eq_false heq, Bool.false_or]

/-- A label is placed at most once. -/
theorem not_isPlaced_of_place {g : TypeGraph} {t t' : LabelTable} {l : Label}
    {fallThrough resume : AbstractStack} (hplace : t.place g l fallThrough = .ok (resume, t')) :
    t.isPlaced l = false := by
  rw [isPlaced]
  rcases (place_ok hplace).1 with ⟨hstate, -⟩ | ⟨slots, hstate, -⟩
  · rw [hstate]
    rfl
  · rw [hstate]
    rfl

/-! ## § Later tables -/

/-- `t'` has every record of `t`, and labels that have places in `t` are as they were. -/
structure Follows (t t' : LabelTable) : Prop where
  records : ∀ {l slots}, t.Records l slots → t'.Records l slots
  placed : ∀ {l}, t.isPlaced l = true → t'.state? l = t.state? l

theorem Follows.refl (t : LabelTable) : t.Follows t := ⟨fun h => h, fun _ => rfl⟩

theorem knows_of_isPlaced {t : LabelTable} {l : Label} (h : t.isPlaced l = true) : t.Knows l := by
  rw [isPlaced, Option.any_eq_true] at h
  obtain ⟨state, hstate, -⟩ := h
  exact ⟨state, hstate⟩

theorem follows_define (t : LabelTable) : t.Follows t.define.2 :=
  ⟨fun h => h.define, fun h => state?_define_of_knows (knows_of_isPlaced h)⟩

theorem follows_place {g : TypeGraph} {t t' : LabelTable} {l : Label}
    {fallThrough resume : AbstractStack} (hplace : t.place g l fallThrough = .ok (resume, t')) :
    t.Follows t' := by
  refine ⟨fun h => h.place hplace, fun {l'} hl' => ?_⟩
  rw [(place_ok hplace).2, if_neg]
  rintro rfl
  rw [not_isPlaced_of_place hplace] at hl'
  cases hl'

/-- An edge changes labels that have places only if it is late. -/
theorem follows_recordEdges {t : LabelTable} {incoming : AbstractStack} {targets : List Label}
    (hlate : ∀ l ∈ targets, t.isLateEdge l incoming = false) :
    t.Follows (targets.foldl (fun t l => t.recordEdge l incoming) t) := by
  refine ⟨fun h => h.recordEdges incoming targets, fun {l} hl => ?_⟩
  obtain ⟨state, hstate⟩ := knows_of_isPlaced hl
  rw [state?_recordEdges, hstate]
  by_cases htarget : l ∈ targets
  · rw [if_pos htarget, Option.map_some]
    have hearly := hlate l htarget
    rw [isLateEdge, hstate] at hearly
    rw [isPlaced, hstate] at hl
    cases state with
    | pending => cases hl
    | bound => cases hl
    | placed recorded =>
      cases incoming with
      | unreachable => rfl
      | reachable slots =>
        cases recorded with
        | unreachable => cases hearly
        | reachable => rfl
  · rw [if_neg htarget]

/-! ### Where records come from -/

theorem records_define {t : LabelTable} {l : Label} {slots : List TypeTag}
    (h : t.define.2.Records l slots) : t.Records l slots := by
  obtain ⟨state, hstate, hrecord⟩ := h
  rw [state?_define] at hstate
  by_cases hfresh : l = t.fresh
  · rw [if_pos hfresh] at hstate
    cases hstate
    cases hrecord
  · rw [if_neg hfresh] at hstate
    exact ⟨state, hstate, hrecord⟩

/-- A label that is placed has the record that the code after it starts with. -/
theorem records_place {g : TypeGraph} {t t' : LabelTable} {l l' : Label}
    {fallThrough resume : AbstractStack} (hplace : t.place g l fallThrough = .ok (resume, t'))
    {slots : List TypeTag} (h : t'.Records l' slots) :
    (l' = l ∧ resume = .reachable slots) ∨ (l' ≠ l ∧ t.Records l' slots) := by
  obtain ⟨state, hstate, hrecord⟩ := h
  rw [(place_ok hplace).2] at hstate
  by_cases heq : l' = l
  · rw [if_pos heq] at hstate
    cases hstate
    refine .inl ⟨heq, ?_⟩
    cases resume with
    | unreachable => cases hrecord
    | reachable recorded =>
      cases hrecord
      rfl
  · rw [if_neg heq] at hstate
    exact .inr ⟨heq, state, hstate, hrecord⟩

/-- A record that an edge has made is the stack of the edge. -/
theorem records_recordEdges {t : LabelTable} {incoming : AbstractStack} {targets : List Label}
    {l : Label} {slots : List TypeTag}
    (h : (targets.foldl (fun t l => t.recordEdge l incoming) t).Records l slots) :
    t.Records l slots ∨ incoming = .reachable slots := by
  obtain ⟨state, hstate, hrecord⟩ := h
  rw [state?_recordEdges] at hstate
  by_cases htarget : l ∈ targets
  · rw [if_pos htarget, Option.map_eq_some_iff] at hstate
    obtain ⟨old, hold, rfl⟩ := hstate
    rw [LabelState.record?_meet_eq, Option.or_eq_some_iff] at hrecord
    rcases hrecord with hrecord | ⟨-, hslots⟩
    · exact .inl ⟨old, hold, hrecord⟩
    · refine .inr ?_
      cases incoming with
      | unreachable => cases hslots
      | reachable found =>
        cases hslots
        rfl
  · rw [if_neg htarget] at hstate
    exact .inl ⟨state, hstate, hrecord⟩

/-! ## § Labels without a place -/

theorem mem_unplaced {t : LabelTable} {l : Label} :
    l ∈ t.unplaced ↔ (t.state? l).any (·.isBound) = true := by
  rw [unplaced, List.mem_filter]
  refine ⟨And.right, fun h => ⟨?_, h⟩⟩
  -- The report goes through all labels that were handed out.
  rw [Option.any_eq_true] at h
  obtain ⟨state, hstate, -⟩ := h
  have hlt : l.index < t.states.size := (Array.getElem?_eq_some_iff.mp hstate).1
  exact List.mem_map.mpr ⟨l.index, List.mem_range.mpr hlt, rfl⟩

theorem pairwise_unplaced (t : LabelTable) : t.unplaced.Pairwise fun l l' => l.index < l'.index := by
  refine List.Pairwise.filter _ ?_
  rw [List.pairwise_map]
  exact List.pairwise_lt_range

/-- **`isPlaced_of_unplaced`** — a label with a record has a place, if none is reported to lack one. -/
theorem isPlaced_of_unplaced {t : LabelTable} (h : t.unplaced = []) {l : Label} {slots : List TypeTag}
    (hrecords : t.Records l slots) : t.isPlaced l = true := by
  obtain ⟨state, hstate, hrecord⟩ := hrecords
  have hnot : l ∉ t.unplaced := by
    rw [h]
    exact List.not_mem_nil
  rw [mem_unplaced, hstate] at hnot
  rw [isPlaced, hstate]
  cases state with
  | pending => cases hrecord
  | bound => exact absurd rfl hnot
  | placed => rfl

end LabelTable

end ManagedCode
