/-
# ManagedCode.Proofs.Flow.Merging — the first edge into a label decides what the others must be.

Labels are defined, checked, reached and placed in any order, and a label may be placed before, between or
after the edges into it.  Of all that the table keeps two facts about each label: whether it has a place, and
the stack of the first reachable edge into it.  Both are read off the calls that were accepted
(`LabelLog.state_run`), whatever came between them, and everything else follows (`LabelLog.first_edge_wins`).

The graph may grow between two calls, so each call that compares types brings the graph of its time.
-/
import ManagedCode.Proofs.Flow.InPlace
import ManagedCode.Proofs.Stack.Compatibility

namespace ManagedCode

/-! ## § Calls -/

/-- A call on a table. -/
inductive LabelCall
  | define
  | checkEdge (g : TypeGraph) (l : Label) (incoming : AbstractStack)
  | reconcile (g : TypeGraph) (l : Label) (incoming : AbstractStack)
  | place (g : TypeGraph) (l : Label) (fallThrough : AbstractStack)

/-- What a call answers if it is accepted. -/
inductive LabelAnswer
  | defined (l : Label)
  | admitted
  | resumes (stack : AbstractStack)
  deriving DecidableEq

namespace LabelCall

/-- The call as a program that changes the table. -/
def inPlace : LabelCall → InPlace EmitError LabelTable LabelAnswer
  | .define => fun t => .ok (.defined t.define.1) t.define.2
  | .checkEdge g l incoming => (fun _ => .admitted) <$> InPlace.reading (·.checkEdge g l incoming)
  | .reconcile g l incoming => (fun _ => .admitted) <$> LabelTable.reconcileInPlace g l incoming
  | .place g l fallThrough => .resumes <$> LabelTable.placeInPlace g l fallThrough

/-- The edge into the label that the call accounts for, if it is reachable: its slots, and the graph. -/
def arrival? (l : Label) : LabelCall → Option (TypeGraph × List TypeTag)
  | .reconcile g l' incoming | .place g l' incoming => if l' = l then incoming.slots?.map (g, ·) else none
  | .define | .checkEdge _ _ _ => none

/-- The call gives the label a place. -/
def places (l : Label) : LabelCall → Bool
  | .place _ l' _ => l' = l
  | _ => false

end LabelCall

/-- What a caller has after a sequence of calls: the table, and the calls that were accepted, oldest first. -/
structure LabelLog where
  table : LabelTable := .empty
  accepted : List LabelCall := []

namespace LabelLog

/-- **`call`** — makes a call, which leaves a table even if it is refused. -/
def call (log : LabelLog) (c : LabelCall) : LabelLog :=
  match c.inPlace log.table with
  | .error _ t => { log with table := t }
  | .ok _ t => ⟨t, log.accepted ++ [c]⟩

/-- **`run`** — makes calls on a new table, one after the other. -/
def run (calls : List LabelCall) : LabelLog := calls.foldl call {}

/-- The call would be accepted now. -/
def Accepts (log : LabelLog) (c : LabelCall) : Prop := ∃ answer t, c.inPlace log.table = .ok answer t

/-- The reachable edges into the label that were accepted, oldest first. -/
def arrivals (log : LabelLog) (l : Label) : List (TypeGraph × List TypeTag) :=
  log.accepted.filterMap (·.arrival? l)

/-- The slots of the first reachable edge into the label that was accepted. -/
def first? (log : LabelLog) (l : Label) : Option (List TypeTag) := (log.arrivals l).head?.map (·.2)

/-- The label was given a place. -/
def placed (log : LabelLog) (l : Label) : Bool := log.accepted.any (·.places l)

end LabelLog

/-! ## § The two facts about a label -/

namespace LabelState

/-- The state of a label, from whether it has a place and the first reachable edge into it. -/
def of (placed : Bool) (first : Option (List TypeTag)) : LabelState :=
  match placed, first with
  | false, none => .pending
  | false, some slots => .bound slots
  | true, none => .placed .unreachable
  | true, some slots => .placed (.reachable slots)

variable (placed : Bool) (first : Option (List TypeTag))

@[simp] theorem record?_of : (of placed first).record? = first := by
  cases placed <;> cases first <;> rfl

@[simp] theorem isPlaced_of : (of placed first).isPlaced = placed := by
  cases placed <;> cases first <;> rfl

@[simp] theorem isBound_of : (of placed first).isBound = (!placed && first.isSome) := by
  cases placed <;> cases first <;> rfl

/-- One more edge counts only if there was none. -/
theorem meet_of (incoming : AbstractStack) :
    (of placed first).meet incoming = of placed (first.or incoming.slots?) := by
  cases incoming <;> cases placed <;> cases first <;> rfl

end LabelState

/-! ## § One call -/

namespace LabelTable

/-- **`Performs`** — the call is accepted: what it answers, and the table it leaves. -/
inductive Performs (t : LabelTable) : LabelCall → LabelAnswer → LabelTable → Prop
  | define : Performs t .define (.defined t.fresh) t.define.2
  | checkEdge {g : TypeGraph} {l : Label} {incoming : AbstractStack} {state : LabelState} :
      t.state? l = some state → (∀ first ∈ state.record?, incoming.Fits g first) →
      Performs t (.checkEdge g l incoming) .admitted t
  | reconcile {g : TypeGraph} {l : Label} {incoming : AbstractStack} {state : LabelState} :
      t.state? l = some state → (∀ first ∈ state.record?, incoming.Fits g first) →
      Performs t (.reconcile g l incoming) .admitted (t.recordEdge l incoming)
  | place {g : TypeGraph} {l : Label} {fallThrough : AbstractStack} {state : LabelState} :
      t.state? l = some state → state.isPlaced = false →
      (∀ first ∈ state.record?, fallThrough.Fits g first) →
      Performs t (.place g l fallThrough) (.resumes (recordOf (state.record?.or fallThrough.slots?)))
        ((t.recordEdge l fallThrough).setState l
          (.placed (recordOf (state.record?.or fallThrough.slots?))))

variable {t t' : LabelTable} {l : Label}

/-- **`perform`** — the call on a table: what it answers, and the table afterwards. -/
def perform (t : LabelTable) : LabelCall → Except EmitError (LabelAnswer × LabelTable)
  | .define => .ok (.defined t.define.1, t.define.2)
  | .checkEdge g l incoming => do
    t.checkEdge g l incoming
    return (.admitted, t)
  | .reconcile g l incoming => do
    return (.admitted, ← t.reconcile g l incoming)
  | .place g l fallThrough => do
    let (resume, t) ← t.place g l fallThrough
    return (.resumes resume, t)

theorem inPlace_eq (c : LabelCall) (t : LabelTable) : c.inPlace t = InPlace.settled t (t.perform c) := by
  cases c with
  | define => rfl
  | checkEdge g l incoming =>
    rw [LabelCall.inPlace, InPlace.map_run, InPlace.reading_run, perform]
    cases t.checkEdge g l incoming <;> rfl
  | reconcile g l incoming =>
    rw [LabelCall.inPlace, InPlace.map_run, reconcileInPlace_eq, perform]
    cases t.reconcile g l incoming <;> rfl
  | place g l fallThrough =>
    rw [LabelCall.inPlace, InPlace.map_run, placeInPlace_eq, perform]
    cases t.place g l fallThrough <;> rfl

/-- **`inPlace_iff`** — the calls that are accepted, what they answer, and the table they leave. -/
theorem inPlace_iff {c : LabelCall} {answer : LabelAnswer} :
    c.inPlace t = .ok answer t' ↔ t.Performs c answer t' := by
  rw [inPlace_eq, InPlace.settled_eq_ok]
  cases c with
  | define =>
    constructor
    · intro h
      cases h
      exact .define
    · rintro ⟨⟩
      rfl
  | checkEdge g l incoming =>
    rw [perform, Except.bind_eq_ok_iff]
    constructor
    · rintro ⟨⟨⟩, hedge, ⟨⟩⟩
      obtain ⟨state, hstate, hfits⟩ := checkEdge_iff.mp hedge
      exact .checkEdge hstate hfits
    · intro h
      cases h with
      | checkEdge hstate hfits => exact ⟨(), checkEdge_iff.mpr ⟨_, hstate, hfits⟩, rfl⟩
  | reconcile g l incoming =>
    rw [perform, Except.bind_eq_ok_iff]
    constructor
    · rintro ⟨t₁, hreconcile, ⟨⟩⟩
      obtain ⟨hedge, rfl⟩ := reconcile_iff.mp hreconcile
      obtain ⟨state, hstate, hfits⟩ := checkEdge_iff.mp hedge
      exact .reconcile hstate hfits
    · intro h
      cases h with
      | reconcile hstate hfits =>
        exact ⟨_, reconcile_iff.mpr ⟨checkEdge_iff.mpr ⟨_, hstate, hfits⟩, rfl⟩, rfl⟩
  | place g l fallThrough =>
    rw [perform, Except.bind_eq_ok_iff]
    constructor
    · rintro ⟨⟨resume, t₁⟩, hplace, ⟨⟩⟩
      obtain ⟨state, hstate, hplaced, hfits, rfl, rfl⟩ := place_iff.mp hplace
      exact .place hstate hplaced hfits
    · intro h
      cases h with
      | place hstate hplaced hfits =>
        exact ⟨_, place_iff.mpr ⟨_, hstate, hplaced, hfits, rfl, rfl⟩, rfl⟩

/-- What is refused leaves the table as it was. -/
theorem inPlace_refused {c : LabelCall} {e : EmitError} (h : c.inPlace t = .error e t') : t' = t :=
  InPlace.settled_eq_error ((inPlace_eq c t).symm.trans h)

theorem placed_recordOf (first : Option (List TypeTag)) :
    LabelState.placed (recordOf first) = .of true first := by
  cases first <;> rfl

/-- **`Performs.state`** — an accepted call as one label sees it.  A label that is not defined yet looks
pending. -/
theorem Performs.state {c : LabelCall} {answer : LabelAnswer} (h : t.Performs c answer t')
    {placed : Bool} {first : Option (List TypeTag)} (hl : (t.state? l).getD .pending = .of placed first) :
    (t'.state? l).getD .pending =
      .of (placed || c.places l) (first.or ((c.arrival? l).map Prod.snd)) := by
  cases h with
  | define =>
    simp only [LabelCall.places, LabelCall.arrival?, Bool.or_false, Option.map_none, Option.or_none, ← hl,
      state?_define]
    split
    · rename_i hfresh
      rw [hfresh, state?_fresh]
      rfl
    · rfl
  | checkEdge =>
    simp only [LabelCall.places, LabelCall.arrival?, Bool.or_false, Option.map_none, Option.or_none, hl]
  | @reconcile g l' incoming state hstate =>
    simp only [LabelCall.places, LabelCall.arrival?, Bool.or_false, state?_recordEdge]
    by_cases heq : l' = l
    · subst heq
      rw [hstate, Option.getD_some] at hl
      simp [hstate, hl, LabelState.meet_of, Option.map_map, Function.comp_def]
    · rw [if_neg (Ne.symm heq), if_neg heq]
      simpa using hl
  | @place g l' fallThrough state hstate =>
    simp only [LabelCall.places, LabelCall.arrival?, state?_setState, state?_recordEdge]
    by_cases heq : l' = l
    · subst heq
      rw [hstate, Option.getD_some] at hl
      simp [hstate, hl, placed_recordOf, Option.map_map, Function.comp_def]
    · rw [if_neg (Ne.symm heq), if_neg (Ne.symm heq), if_neg heq, decide_eq_false heq]
      simpa using hl

end LabelTable

/-! ## § A sequence of calls -/

namespace LabelLog

variable {calls : List LabelCall} {l : Label}

theorem run_concat (calls : List LabelCall) (c : LabelCall) :
    run (calls ++ [c]) = (run calls).call c := by
  simp [run]

theorem call_accepted {log : LabelLog} {c : LabelCall} {answer : LabelAnswer} {t : LabelTable}
    (h : c.inPlace log.table = .ok answer t) : log.call c = ⟨t, log.accepted ++ [c]⟩ := by
  rw [call, h]

theorem call_refused {log : LabelLog} {c : LabelCall} {e : EmitError} {t : LabelTable}
    (h : c.inPlace log.table = .error e t) : log.call c = log := by
  rw [call, h]
  exact congrArg (LabelLog.mk · log.accepted) (LabelTable.inPlace_refused h)

/-- A call leaves the log as it was, or adds itself to it. -/
theorem call_cases (log : LabelLog) (c : LabelCall) :
    (¬ log.Accepts c ∧ log.call c = log) ∨
      ∃ answer t, log.table.Performs c answer t ∧ log.call c = ⟨t, log.accepted ++ [c]⟩ := by
  cases h : c.inPlace log.table with
  | error e t =>
    refine .inl ⟨?_, call_refused h⟩
    rintro ⟨answer, t', haccepts⟩
    cases h.symm.trans haccepts
  | ok answer t => exact .inr ⟨answer, t, LabelTable.inPlace_iff.mp h, call_accepted h⟩

theorem arrivals_concat (log : LabelLog) (c : LabelCall) (t : LabelTable) (l : Label) :
    (LabelLog.mk t (log.accepted ++ [c])).arrivals l = log.arrivals l ++ (c.arrival? l).toList := by
  rw [arrivals, arrivals, List.filterMap_append]
  cases h : c.arrival? l <;> simp [h]

theorem first?_concat (log : LabelLog) (c : LabelCall) (t : LabelTable) (l : Label) :
    (LabelLog.mk t (log.accepted ++ [c])).first? l =
      (log.first? l).or ((c.arrival? l).map Prod.snd) := by
  rw [first?, first?, arrivals_concat, List.head?_append]
  cases (log.arrivals l).head? <;> cases c.arrival? l <;> rfl

theorem placed_concat (log : LabelLog) (c : LabelCall) (t : LabelTable) (l : Label) :
    (LabelLog.mk t (log.accepted ++ [c])).placed l = (log.placed l || c.places l) := by
  simp [placed]

/-- **`state_run`** — the state of a label is read off the accepted calls. -/
theorem state_run (calls : List LabelCall) (l : Label) :
    ((run calls).table.state? l).getD .pending = .of ((run calls).placed l) ((run calls).first? l) := by
  induction calls using List.reverseRecOn with
  | nil => rfl
  | append_singleton calls c ih =>
    rw [run_concat]
    rcases (run calls).call_cases c with ⟨-, hcall⟩ | ⟨answer, t, hperforms, hcall⟩
    · rwa [hcall]
    · rw [hcall, first?_concat, placed_concat]
      exact hperforms.state ih

/-- A label that is known is in the state that the accepted calls say. -/
theorem state_eq {state : LabelState} (h : (run calls).table.state? l = some state) :
    state = .of ((run calls).placed l) ((run calls).first? l) := by
  rw [← state_run, h]
  rfl

/-- There is no edge into a label that has not been defined. -/
theorem knows_of_first {first : List TypeTag} (h : (run calls).first? l = some first) :
    (run calls).table.Knows l := by
  cases hstate : (run calls).table.state? l with
  | some state => exact ⟨state, hstate⟩
  | none =>
    have hrun := state_run calls l
    rw [hstate, h] at hrun
    cases hplaced : (run calls).placed l <;> rw [hplaced] at hrun <;> cases hrun

/-! ### What is accepted -/

section Acceptance

variable {g : TypeGraph} {incoming : AbstractStack}

theorem accepts_checkEdge_iff : (run calls).Accepts (.checkEdge g l incoming) ↔
    (run calls).table.Knows l ∧ ∀ first ∈ (run calls).first? l, incoming.Fits g first := by
  constructor
  · rintro ⟨answer, t, h⟩
    cases LabelTable.inPlace_iff.mp h with
    | checkEdge hstate hfits =>
      rw [state_eq hstate, LabelState.record?_of] at hfits
      exact ⟨⟨_, hstate⟩, hfits⟩
  · rintro ⟨⟨state, hstate⟩, hfits⟩
    refine ⟨_, _, LabelTable.inPlace_iff.mpr (.checkEdge hstate ?_)⟩
    rwa [state_eq hstate, LabelState.record?_of]

/-- **`accepts_reconcile_iff`** — an edge is accepted if it fits the first one, should there be one. -/
theorem accepts_reconcile_iff : (run calls).Accepts (.reconcile g l incoming) ↔
    (run calls).table.Knows l ∧ ∀ first ∈ (run calls).first? l, incoming.Fits g first := by
  constructor
  · rintro ⟨answer, t, h⟩
    cases LabelTable.inPlace_iff.mp h with
    | reconcile hstate hfits =>
      rw [state_eq hstate, LabelState.record?_of] at hfits
      exact ⟨⟨_, hstate⟩, hfits⟩
  · rintro ⟨⟨state, hstate⟩, hfits⟩
    refine ⟨_, _, LabelTable.inPlace_iff.mpr (.reconcile hstate ?_)⟩
    rwa [state_eq hstate, LabelState.record?_of]

/-- **`accepts_place_iff`** — the same of a fall-through, and only one of them gets the place. -/
theorem accepts_place_iff : (run calls).Accepts (.place g l incoming) ↔
    (run calls).table.Knows l ∧ (run calls).placed l = false ∧
      ∀ first ∈ (run calls).first? l, incoming.Fits g first := by
  constructor
  · rintro ⟨answer, t, h⟩
    cases LabelTable.inPlace_iff.mp h with
    | place hstate hplaced hfits =>
      rw [state_eq hstate, LabelState.record?_of] at hfits
      rw [state_eq hstate, LabelState.isPlaced_of] at hplaced
      exact ⟨⟨_, hstate⟩, hplaced, hfits⟩
  · rintro ⟨⟨state, hstate⟩, hplaced, hfits⟩
    refine ⟨_, _, LabelTable.inPlace_iff.mpr (.place hstate ?_ ?_)⟩
    · rwa [state_eq hstate, LabelState.isPlaced_of]
    · rwa [state_eq hstate, LabelState.record?_of]

end Acceptance

/-! ### The first edge -/

/-- The first edge stays the first. -/
theorem first?_append {first : List TypeTag} (h : (run calls).first? l = some first)
    (more : List LabelCall) : (run (calls ++ more)).first? l = some first := by
  induction more using List.reverseRecOn with
  | nil => rwa [List.append_nil]
  | append_singleton more c ih =>
    rw [← List.append_assoc, run_concat]
    rcases (run (calls ++ more)).call_cases c with ⟨-, hcall⟩ | ⟨answer, t, -, hcall⟩
    · rwa [hcall]
    · rw [hcall, first?_concat, ih, Option.some_or]

theorem recorded?_run {slots : List TypeTag} :
    (run calls).table.recorded? l = some (.reachable slots) ↔ (run calls).first? l = some slots := by
  rw [LabelTable.recorded?]
  cases hstate : (run calls).table.state? l with
  | none =>
    constructor
    · intro h
      cases h
    · intro h
      obtain ⟨state, hknown⟩ := knows_of_first h
      cases hstate.symm.trans hknown
  | some state =>
    rw [state_eq hstate]
    cases (run calls).placed l <;> cases (run calls).first? l <;> simp [LabelState.of]

/-- The edge that an accepted call accounts for fits the first one. -/
theorem fits_of_performs {c : LabelCall} {answer : LabelAnswer} {t : LabelTable}
    (h : (run calls).table.Performs c answer t) {edge : TypeGraph × List TypeTag}
    (hedge : c.arrival? l = some edge) {first : List TypeTag} (hfirst : (run calls).first? l = some first) :
    AbstractStack.slotsCompatible edge.1 edge.2 first = true := by
  have hfits {g : TypeGraph} {l' : Label} {incoming : AbstractStack} {state : LabelState}
      (hstate : (run calls).table.state? l' = some state)
      (hadmits : ∀ slots ∈ state.record?, incoming.Fits g slots)
      (harrival : (if l' = l then incoming.slots?.map (g, ·) else none) = some edge) :
      AbstractStack.slotsCompatible edge.1 edge.2 first = true := by
    obtain ⟨rfl, hsome⟩ := Option.ite_none_right_eq_some.mp harrival
    obtain ⟨slots, hslots, rfl⟩ := Option.map_eq_some_iff.mp hsome
    rw [state_eq hstate, LabelState.record?_of] at hadmits
    exact hadmits first hfirst slots hslots
  cases h with
  | define => cases hedge
  | checkEdge => cases hedge
  | reconcile hstate hadmits => exact hfits hstate hadmits hedge
  | place hstate _ hadmits => exact hfits hstate hadmits hedge

/-- **`arrivals_fit`** — every edge that was accepted fits the first one, which fits itself. -/
theorem arrivals_fit {first : List TypeTag} (h : (run calls).first? l = some first) :
    ∀ edge ∈ (run calls).arrivals l, AbstractStack.slotsCompatible edge.1 edge.2 first = true := by
  induction calls using List.reverseRecOn with
  | nil => cases h
  | append_singleton calls c ih =>
    rw [run_concat] at h ⊢
    rcases (run calls).call_cases c with ⟨-, hcall⟩ | ⟨answer, t, hperforms, hcall⟩
    · rw [hcall] at h ⊢
      exact ih h
    · rw [hcall, first?_concat] at h
      rw [hcall, arrivals_concat]
      intro edge hedge
      rw [List.mem_append, Option.mem_toList] at hedge
      cases hold : (run calls).first? l with
      | some slots =>
        rw [hold, Option.some_or] at h
        cases h
        rcases hedge with hedge | hedge
        · exact ih hold edge hedge
        · exact fits_of_performs hperforms hedge hold
      | none =>
        -- The edge is the first one.
        rw [hold, Option.none_or] at h
        rcases hedge with hedge | hedge
        · rw [first?, Option.map_eq_none_iff, List.head?_eq_none_iff] at hold
          rw [hold] at hedge
          cases hedge
        · rw [hedge] at h
          cases h
          exact AbstractStack.slotsCompatible_refl edge.1 edge.2

/-! ### Places -/

/-- Only a call that is accepted while the label has no place gives it one. -/
theorem not_placed_of_performs {c : LabelCall} {answer : LabelAnswer} {t : LabelTable}
    (h : (run calls).table.Performs c answer t) (hc : c.places l = true) :
    (run calls).placed l = false ∧ ∃ g fallThrough, c = .place g l fallThrough ∧
      answer = .resumes (LabelTable.recordOf (((run calls).first? l).or fallThrough.slots?)) ∧
      ∀ first ∈ (run calls).first? l, fallThrough.Fits g first := by
  cases h with
  | define => cases hc
  | checkEdge => cases hc
  | reconcile => cases hc
  | @place g l' fallThrough state hstate hplaced hfits =>
    obtain rfl : l' = l := of_decide_eq_true hc
    rw [state_eq hstate] at hplaced hfits ⊢
    simp only [LabelState.isPlaced_of, LabelState.record?_of] at hplaced hfits ⊢
    exact ⟨hplaced, g, fallThrough, rfl, rfl, hfits⟩

theorem countP_places_le_one (calls : List LabelCall) (l : Label) :
    (run calls).accepted.countP (·.places l) ≤ 1 := by
  induction calls using List.reverseRecOn with
  | nil => exact Nat.zero_le 1
  | append_singleton calls c ih =>
    rw [run_concat]
    rcases (run calls).call_cases c with ⟨-, hcall⟩ | ⟨answer, t, hperforms, hcall⟩
    · rwa [hcall]
    · rw [hcall, List.countP_append, List.countP_singleton]
      by_cases hc : c.places l = true
      · obtain ⟨hplaced, -⟩ := not_placed_of_performs hperforms hc
        have hzero : (run calls).accepted.countP (·.places l) = 0 := by
          rw [List.countP_eq_zero]
          rwa [placed, List.any_eq_false] at hplaced
        rw [hzero, if_pos hc]
      · rwa [if_neg hc]

/-- Whether a label that has been reached gets a place depends on which calls are made, not on their order. -/
theorem placed_append {first : List TypeTag} (h : (run calls).first? l = some first)
    (more : List LabelCall) :
    (run (calls ++ more)).placed l = true ↔ (run calls).placed l = true ∨
      ∃ g fallThrough, .place g l fallThrough ∈ more ∧ fallThrough.Fits g first := by
  induction more using List.reverseRecOn with
  | nil => simp
  | append_singleton more c ih =>
    have hfirst := first?_append h more
    rw [← List.append_assoc, run_concat]
    have hcall : ((run (calls ++ more)).call c).placed l = true ↔
        (run (calls ++ more)).placed l = true ∨
          ∃ g fallThrough, .place g l fallThrough = c ∧ fallThrough.Fits g first := by
      rcases (run (calls ++ more)).call_cases c with ⟨hrefused, hcall⟩ | ⟨answer, t, hperforms, hcall⟩
      · rw [hcall]
        refine ⟨.inl, ?_⟩
        rintro (hplaced | ⟨g, fallThrough, rfl, hfits⟩)
        · exact hplaced
        · by_contra hplaced
          rw [Bool.not_eq_true] at hplaced
          refine hrefused (accepts_place_iff.mpr ⟨knows_of_first hfirst, hplaced, ?_⟩)
          rintro first' hfirst'
          cases hfirst.symm.trans hfirst'
          exact hfits
      · rw [hcall, placed_concat, Bool.or_eq_true]
        refine or_congr_right ⟨fun hc => ?_, ?_⟩
        · obtain ⟨-, g, fallThrough, rfl, -, hfits⟩ := not_placed_of_performs hperforms hc
          exact ⟨g, fallThrough, rfl, hfits first hfirst⟩
        · rintro ⟨g, fallThrough, rfl, -⟩
          exact decide_eq_true rfl
    rw [hcall, ih, or_assoc]
    simp only [List.mem_append, List.mem_singleton, or_and_right, exists_or]

/-- A label that gets a place goes on with what is recorded by then. -/
theorem resumes_of_place {g : TypeGraph} {fallThrough : AbstractStack} {answer : LabelAnswer} {t : LabelTable}
    (h : (LabelCall.place g l fallThrough).inPlace (run calls).table = .ok answer t) :
    answer = .resumes (LabelTable.recordOf ((run (calls ++ [.place g l fallThrough])).first? l)) ∧
      t.recorded? l =
        some (LabelTable.recordOf ((run (calls ++ [.place g l fallThrough])).first? l)) := by
  have hfirst : (run (calls ++ [.place g l fallThrough])).first? l =
      ((run calls).first? l).or fallThrough.slots? := by
    rw [run_concat, call_accepted h, first?_concat, LabelCall.arrival?, if_pos rfl, Option.map_map]
    simp [Function.comp_def]
  rw [hfirst]
  cases LabelTable.inPlace_iff.mp h with
  | place hstate =>
    rw [state_eq hstate, LabelState.record?_of]
    refine ⟨rfl, ?_⟩
    rw [LabelTable.recorded?, LabelTable.state?_setState, if_pos rfl, LabelTable.state?_recordEdge,
      if_pos rfl, hstate]
    rfl

theorem mem_unplaced_run :
    l ∈ (run calls).table.unplaced ↔ (run calls).arrivals l ≠ [] ∧ (run calls).placed l = false := by
  have hbound : ((run calls).table.state? l).any (·.isBound) =
      (((run calls).table.state? l).getD .pending).isBound := by
    cases (run calls).table.state? l <;> rfl
  rw [LabelTable.mem_unplaced, hbound, state_run, LabelState.isBound_of, first?, Option.isSome_map,
    Bool.and_eq_true, Bool.not_eq_true', List.isSome_head?, and_comm]

/-! ### The merge as a whole -/

/-- **`FirstEdgeWins`** — what holds after the calls, and after whatever is called next. -/
structure FirstEdgeWins (calls : List LabelCall) : Prop where
  /-- A reachable stack that is on record stays there. -/
  stays : ∀ {l slots}, (run calls).table.recorded? l = some (.reachable slots) →
    ∀ more, (run (calls ++ more)).table.recorded? l = some (.reachable slots)
  /-- An edge passes the check exactly if it would be accepted. -/
  checked : ∀ g l incoming,
    (run calls).Accepts (.checkEdge g l incoming) ↔ (run calls).Accepts (.reconcile g l incoming)
  /-- Every reachable edge that was accepted, fall-throughs included, fits the first one. -/
  fits : ∀ {l first}, (run calls).first? l = some first →
    ∀ edge ∈ (run calls).arrivals l, AbstractStack.slotsCompatible edge.1 edge.2 first = true
  /-- Whatever has been called since the first edge, another one is accepted exactly if it fits the first. -/
  joins : ∀ {l first}, (run calls).first? l = some first → ∀ more g incoming,
    (run (calls ++ more)).Accepts (.reconcile g l incoming) ↔ incoming.Fits g first
  /-- The same of a fall-through, unless one of the calls since then could give the label its place. -/
  falls : ∀ {l first}, (run calls).first? l = some first → ∀ more g incoming,
    (run (calls ++ more)).Accepts (.place g l incoming) ↔ incoming.Fits g first ∧
      (run calls).placed l = false ∧
      ∀ g' fallThrough, .place g' l fallThrough ∈ more → ¬ fallThrough.Fits g' first
  /-- No label gets two places. -/
  once : ∀ l, (run calls).accepted.countP (·.places l) ≤ 1
  /-- A label that gets a place goes on with the first edge, its own fall-through included, and that is on
  record; if there is none, it is unreachable. -/
  resumes : ∀ {g l fallThrough answer t},
    (LabelCall.place g l fallThrough).inPlace (run calls).table = .ok answer t →
      answer = .resumes (LabelTable.recordOf ((run (calls ++ [.place g l fallThrough])).first? l)) ∧
      t.recorded? l = some (LabelTable.recordOf ((run (calls ++ [.place g l fallThrough])).first? l))
  /-- A call that is refused leaves the table as it was. -/
  refused : ∀ {c : LabelCall} {e t}, c.inPlace (run calls).table = .error e t → t = (run calls).table
  sorted : (run calls).table.unplaced.Pairwise fun l l' => l.index < l'.index
  /-- The labels that are reported have been reached and have no place. -/
  unplaced : ∀ l, l ∈ (run calls).table.unplaced ↔
    (run calls).arrivals l ≠ [] ∧ (run calls).placed l = false

/-- **`first_edge_wins`** — after any calls, the first edge into a label decides what the others must be. -/
theorem first_edge_wins (calls : List LabelCall) : FirstEdgeWins calls where
  stays h more := recorded?_run.mpr (first?_append (recorded?_run.mp h) more)
  checked g l incoming := accepts_checkEdge_iff.trans accepts_reconcile_iff.symm
  fits h := arrivals_fit h
  joins {l first} h more g incoming := by
    have hfirst := first?_append h more
    rw [accepts_reconcile_iff, and_iff_right (knows_of_first hfirst), hfirst]
    simp only [Option.mem_def, Option.some.injEq, forall_eq']
  falls {l first} h more g incoming := by
    have hfirst := first?_append h more
    have hplaced : (run (calls ++ more)).placed l = false ↔ (run calls).placed l = false ∧
        ∀ g' fallThrough, .place g' l fallThrough ∈ more → ¬ fallThrough.Fits g' first := by
      rw [← Bool.not_eq_true, placed_append h, not_or, Bool.not_eq_true]
      simp only [not_exists, not_and]
    rw [accepts_place_iff, and_iff_right (knows_of_first hfirst), hplaced, hfirst, and_comm]
    simp only [Option.mem_def, Option.some.injEq, forall_eq']
  once := countP_places_le_one calls
  resumes h := resumes_of_place h
  refused h := LabelTable.inPlace_refused h
  sorted := LabelTable.pairwise_unplaced _
  unplaced l := mem_unplaced_run

end LabelLog

namespace InterfaceCycle

open LabelLog

/-- A label is placed where nothing has reached it, and reached afterwards; another one is only reached. -/
def revival : List LabelCall :=
  [.define, .define, .place graph ⟨0⟩ .unreachable, .reconcile graph ⟨1⟩ .empty,
    .reconcile graph ⟨0⟩ (.reachable [.value sink.1])]

/-- From then on the class may join the interface, and the object may not. -/
theorem first_edge_wins_revival :
    (run revival).first? ⟨0⟩ = some [.value sink.1] ∧ ⟨1⟩ ∈ (run revival).table.unplaced ∧
      ∀ more,
        (run (revival ++ more)).Accepts (.reconcile graph ⟨0⟩ (.reachable [.value channel.1])) ∧
        ¬ (run (revival ++ more)).Accepts (.reconcile graph ⟨0⟩ (.reachable [.value system.object])) ∧
        ¬ (run (revival ++ more)).Accepts (.place graph ⟨0⟩ .unreachable) := by
  have hwins := first_edge_wins revival
  obtain ⟨hfirst, hplaced, hfirst', hplaced', hchannel, hobject⟩ :
      (run revival).first? ⟨0⟩ = some [.value sink.1] ∧ (run revival).placed ⟨0⟩ = true ∧
        (run revival).first? ⟨1⟩ = some [] ∧ (run revival).placed ⟨1⟩ = false ∧
        AbstractStack.slotsCompatible graph [.value channel.1] [.value sink.1] = true ∧
        AbstractStack.slotsCompatible graph [.value system.object] [.value sink.1] = false := by
    decide +kernel
  have harrives : (run revival).arrivals ⟨1⟩ ≠ [] := by
    intro hnone
    rw [first?, hnone] at hfirst'
    cases hfirst'
  refine ⟨hfirst, (hwins.unplaced ⟨1⟩).mpr ⟨harrives, hplaced'⟩, fun more => ⟨?_, ?_, ?_⟩⟩
  · refine (hwins.joins hfirst more graph _).mpr fun slots hslots => ?_
    cases hslots
    exact hchannel
  · rw [hwins.joins hfirst more graph]
    intro hfits
    cases hobject.symm.trans (hfits _ rfl)
  · rw [hwins.falls hfirst more graph, hplaced]
    rintro ⟨-, ⟨⟩, -⟩

end InterfaceCycle

end ManagedCode
