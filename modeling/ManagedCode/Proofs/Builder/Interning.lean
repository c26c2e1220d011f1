/-
# ManagedCode.Proofs.Builder.Interning — what a refused instruction does to the graph.

The graph is shared by all bodies that are built over it, so a refused instruction should leave it alone.
All but one do, and so do all branches.  The exception is `newarr`: the type of its result is added to the
graph as soon as the effect of the instruction is asked for, which is before any operand is looked at.  If
the type is new, the refused instruction leaves it behind (`GainsArray`), and every type specification that
is added later has another token.
-/
import ManagedCode.Proofs.Builder.Refusal
import ManagedCode.Proofs.Graph.Identity

namespace ManagedCode

/-! ## § An array type that is left behind -/

namespace TypeGraph

/-- **`GainsArray`** — the later graph has the array of a type besides, which the earlier one lacked: one more
name, and one more row among the type specifications. -/
structure GainsArray (g : TypeGraph) (element : TypeId) (g' : TypeGraph) : Prop where
  graph : g' = (g.arrayOf element).2
  lookup_new : g.lookup? (g.nameOf element ++ "[]") = none ∧
    g'.lookup? (g.nameOf element ++ "[]") = some ⟨g.types.size⟩
  lookup_other : ∀ name, name ≠ g.nameOf element ++ "[]" → g'.lookup? name = g.lookup? name
  fields : g'.fields = g.fields
  methods : g'.methods = g.methods
  rows : ∀ table, g'.rows table =
    if table = .typeSpecification then g.rows table + 1 else g.rows table

theorem gainsArray_arrayOf {g : TypeGraph} {element : TypeId}
    (h : g.lookup? (g.nameOf element ++ "[]") = none) : g.GainsArray element (g.arrayOf element).2 := by
  obtain ⟨token, -, htypes, hfields, hmethods⟩ :=
    addType_free (.array element) (g.lookup? arrayBaseName) (.visible ||| .sealed) h
  have hrows := (addType_row (.array element) (g.lookup? arrayBaseName) (.visible ||| .sealed) h).2
  have hlookup := lookup?_push_eq htypes
  refine ⟨rfl, ⟨h, ?_⟩, ?_, hfields, hmethods, ?_⟩
  · rw [arrayOf, hlookup, h, beq_self_eq_true]
    rfl
  · intro name hname
    rw [arrayOf, hlookup, beq_eq_false_iff_ne.mpr (Ne.symm hname)]
    exact Option.or_none
  · intro table
    cases table with
    | typeDefinition => exact hrows .classType
    | typeSpecification => exact hrows (.array element)
    | field => exact congrArg Array.size hfields
    | method => exact congrArg Array.size hmethods

theorem GainsArray.ne {g g' : TypeGraph} {element : TypeId} (h : g.GainsArray element g') : g' ≠ g := by
  rintro rfl
  exact absurd (h.lookup_new.1.symm.trans h.lookup_new.2) nofun

theorem withResultTypes_eq {insn : Instruction} (h : ∀ t, insn ≠ .newarr t) (g : TypeGraph) :
    g.withResultTypes insn = g := by
  cases insn with
  | newarr t => exact absurd rfl (h t)
  | _ => rfl

end TypeGraph

/-- **`Interns`** — the instruction gets as far as asking for an array type that the graph lacks: the code is
live and no qualifier waits for a call. -/
def Draft.Interns (d : Draft) (insn : Instruction) : Prop :=
  ∃ t, insn = .newarr t ∧ d.constrained = none ∧ d.stack.isReachable = true ∧
    d.graph.lookup? (d.graph.nameOf t ++ "[]") = none

namespace Builder

variable {σ : Type} [CodeSink σ] {b b' : Builder σ} {e : EmitError}

/-! ## § The graph after a refusal -/

/-- Nothing that a branch does reaches the graph. -/
theorem pushBranch_refused_graph {branch : Branch Label} (h : pushBranch branch b = .error e b') :
    b'.draft.graph = b.draft.graph := by
  obtain ⟨d, w⟩ := b
  rw [pushBranch_run] at h
  split at h
  · cases h
    rfl
  · split at h
    · cases h
      rfl
    · cases h

/-- A waiting qualifier refuses an instruction at once; all other refusals come after the result type was
added. -/
theorem pushInstruction_refused_graph {insn : Instruction} (h : pushInstruction insn b = .error e b') :
    b'.draft.graph = if insn.isVirtualCall = false ∧ b.draft.constrained ≠ none then b.draft.graph
      else (b.draft.addResultTypes insn).graph := by
  obtain ⟨d, w⟩ := b
  rw [pushInstruction_run] at h
  split at h
  case isTrue hqualified =>
    cases h
    rw [if_pos hqualified]
  case isFalse hqualified =>
    rw [if_neg hqualified]
    split at h
    case h_1 after _ =>
      rw [emitVerified_run] at h
      split at h
      · cases h
        rfl
      · cases h
    case h_2 fault _ =>
      cases h
      obtain ⟨journal, hjournal⟩ := reportFault_eq insn fault (d.addResultTypes insn)
      rw [hjournal]

/-- **`refused_graph_eq_iff`** — a refused branch leaves the graph as it was, and a refused instruction does
unless it asks for a new array type, which then is all that was added. -/
theorem refused_graph_eq_iff :
    (∀ branch, pushBranch branch b = .error e b' → b'.draft.graph = b.draft.graph) ∧
      ∀ insn, pushInstruction insn b = .error e b' →
        (b'.draft.graph = b.draft.graph ↔ ¬ b.draft.Interns insn) ∧
        ∀ t, insn = .newarr t → b.draft.Interns insn → b.draft.graph.GainsArray t b'.draft.graph := by
  refine ⟨fun branch => pushBranch_refused_graph, fun insn h => ?_⟩
  have hgraph := pushInstruction_refused_graph h
  have hgains : ∀ t, insn = .newarr t → b.draft.Interns insn →
      b.draft.graph.GainsArray t b'.draft.graph := by
    rintro t rfl ⟨t', heq, hfree, hlive, hnew⟩
    cases heq
    rw [hgraph, if_neg fun hqualified => hqualified.2 hfree, Draft.addResultTypes, if_pos hlive]
    exact TypeGraph.gainsArray_arrayOf hnew
  refine ⟨⟨?kept, ?same⟩, hgains⟩
  case kept =>
    rintro hsame ⟨t, rfl, hinterns⟩
    exact (hgains t rfl ⟨t, rfl, hinterns⟩).ne hsame
  case same =>
    intro hkeeps
    rw [hgraph]
    split
    case isTrue => rfl
    case isFalse hqualified =>
      rw [Draft.addResultTypes]
      split
      case isFalse => rfl
      case isTrue hlive =>
        by_cases hnewarr : ∃ t, insn = .newarr t
        · obtain ⟨t, rfl⟩ := hnewarr
          have hfree : b.draft.constrained = none := by
            by_contra hwaits
            exact hqualified ⟨rfl, hwaits⟩
          -- The type is there already, so asking for it adds nothing.
          cases hlookup : b.draft.graph.lookup? (b.draft.graph.nameOf t ++ "[]") with
          | none => exact absurd ⟨t, rfl, hfree, hlive, hlookup⟩ hkeeps
          | some existing => exact congrArg Prod.snd (TypeGraph.addType_taken _ _ _ hlookup)
        · exact TypeGraph.withResultTypes_eq (fun t ht => hnewarr ⟨t, ht⟩) _

end Builder

namespace Sample

/-- A body that has just begun. -/
def begun : Builder Recording := Builder.start graph system method Recording.empty

/-- The body after an attempt to take a value from its empty stack. -/
def untaken : Builder Recording := (Builder.pushInstruction .pop).reached begun

/-- The body after an attempt to make an array of the class, without a length for it. -/
def unmade : Builder Recording := (Builder.pushInstruction (.newarr owner.1)).reached begun

/-- Nothing is left behind where no array was asked for. -/
theorem untaken_graph :
    (∃ e, Builder.pushInstruction .pop begun = .error e untaken) ∧
      untaken.draft.graph = begun.draft.graph := by
  obtain ⟨e, hrefused⟩ := Build.exists_error (x := Builder.pushInstruction .pop) (b := begun) (by decide +kernel)
  exact ⟨⟨e, hrefused⟩, (Builder.refused_graph_eq_iff.2 .pop hrefused).1.mpr nofun⟩

/-- The refused instruction leaves its array type in the graph, and the next array gets another token. -/
theorem unmade_graph :
    (∃ e, Builder.pushInstruction (.newarr owner.1) begun = .error e unmade) ∧
      begun.draft.graph.lookup? "Sample[]" = none ∧
      unmade.draft.graph.lookup? "Sample[]" = some ⟨21⟩ ∧
      ((begun.draft.graph.arrayOf system.string).2.type ⟨21⟩).token = 0x1B000001 ∧
      ((unmade.draft.graph.arrayOf system.string).2.type ⟨22⟩).token = 0x1B000002 :=
  ⟨Build.exists_error (by decide +kernel), by decide +kernel⟩

end Sample

end ManagedCode
