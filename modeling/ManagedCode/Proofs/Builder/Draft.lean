/-
# ManagedCode.Proofs.Builder.Draft — what the checks of a draft establish and its updates change.

A branch is accepted in one check and committed in one update.  `checkBranch_ok` says what the check has
established, `commitBranch_eq` which fields the update changes: the labels receive their edges one after
the other, and each label that had been placed in dead code is reported.
-/
import ManagedCode.Builder.Draft
import ManagedCode.Proofs.Flow.Labels

namespace ManagedCode

/-- The labels that control may continue at. -/
def CodeItem.targets : CodeItem → List Label
  | .straight _ => []
  | .branch b => b.targets

namespace Draft

/-! ## § The start -/

/-- **`start_eq`** — a draft starts without code.  The receiver is the owner of the method, if there is a
receiver, or a reference to it. -/
theorem start_eq (g : TypeGraph) (system : SystemTypes) (method : MethodId) :
    ∃ (g' : TypeGraph) (receiver : List TypeId),
      Draft.start g system method =
        { graph := g', system, method, arguments := (receiver ++ (g.method method).parameters).toArray } ∧
      ((g' = g ∧ ∀ t ∈ receiver, t = (g.method method).owner) ∨
        (g' = (g.byRef (g.method method).owner).2 ∧ receiver = [(g.byRef (g.method method).owner).1])) := by
  rw [Draft.start]
  by_cases hstatic : (g.method method).isStatic = true
  · refine ⟨g, [], ?_, .inl ⟨rfl, by simp⟩⟩
    simp only [if_pos hstatic, List.nil_append]
  · by_cases hvalue : (g.type (g.method method).owner).isValueType = true
    · refine ⟨_, [(g.byRef (g.method method).owner).1], ?_, .inr ⟨rfl, rfl⟩⟩
      simp only [if_neg hstatic, if_pos hvalue, List.cons_append, List.nil_append]
    · refine ⟨g, [(g.method method).owner], ?_, .inl ⟨rfl, by simp⟩⟩
      simp only [if_neg hstatic, if_neg hvalue, List.cons_append, List.nil_append]

@[simp] theorem labels_start (g : TypeGraph) (system : SystemTypes) (method : MethodId) :
    (Draft.start g system method).labels = {} := by
  obtain ⟨g', receiver, hstart, -⟩ := start_eq g system method
  rw [hstart]

@[simp] theorem regions_start (g : TypeGraph) (system : SystemTypes) (method : MethodId) :
    (Draft.start g system method).regions = {} := by
  obtain ⟨g', receiver, hstart, -⟩ := start_eq g system method
  rw [hstart]

@[simp] theorem records_start (g : TypeGraph) (system : SystemTypes) (method : MethodId) :
    (Draft.start g system method).records = #[] := by
  obtain ⟨g', receiver, hstart, -⟩ := start_eq g system method
  rw [hstart]

/-! ## § Checks -/

theorem checkUnqualified_ok_iff {d : Draft} {subject : Subject} :
    d.checkUnqualified subject = .ok () ↔ d.constrained = none := by
  rw [checkUnqualified]
  cases d.constrained <;> simp

theorem checkEdges_ok {d : Draft} {delivered : AbstractStack} {targets : List Label}
    (h : d.checkEdges delivered targets = .ok ()) :
    ∀ l ∈ targets, d.labels.checkEdge d.graph l delivered = .ok () := by
  induction targets with
  | nil => simp
  | cons l rest ih =>
    obtain ⟨⟨⟩, hedge, hrest⟩ := Except.bind_eq_ok_iff.mp h
    exact List.forall_mem_cons.mpr ⟨hedge, ih hrest⟩

/-- **`checkBranch_ok`** — no qualifier waits, the branch may stand here, it verifies, and all its targets
accept the delivered stack. -/
theorem checkBranch_ok {d : Draft} {branch : Branch Label} {j : AbstractStack.Jump}
    (h : d.checkBranch branch = .ok j) :
    d.constrained = none ∧ d.mayStand branch = true ∧
      d.stack.jump d.graph d.context branch = .ok j ∧
      ∀ l ∈ branch.targets, d.labels.checkEdge d.graph l j.delivered = .ok () := by
  obtain ⟨⟨⟩, hunqualified, h⟩ := Except.bind_eq_ok_iff.mp h
  obtain ⟨⟨⟩, -, h⟩ := Except.bind_eq_ok_iff.mp h
  obtain ⟨⟨⟩, hplacement, h⟩ := Except.bind_eq_ok_iff.mp h
  obtain ⟨j', hjump, h⟩ := Except.bind_eq_ok_iff.mp h
  obtain ⟨⟨⟩, hedges, heq⟩ := Except.bind_eq_ok_iff.mp h
  cases heq
  refine ⟨checkUnqualified_ok_iff.mp hunqualified, ?_, ?_, checkEdges_ok hedges⟩
  · rw [checkPlacement] at hplacement
    split at hplacement
    · assumption
    · cases hplacement
  · cases hresult : d.stack.jump d.graph d.context branch with
    | error fault =>
      rw [hresult] at hjump
      cases hjump
    | ok j' =>
      rw [hresult] at hjump
      cases hjump
      rfl

/-! ## § Updates -/

/-- Result types are added to the graph, and nothing else changes. -/
theorem addResultTypes_eq (insn : Instruction) (d : Draft) :
    d.addResultTypes insn =
      { d with graph := if d.stack.isReachable then d.graph.withResultTypes insn else d.graph } := by
  rw [addResultTypes]
  split <;> rfl

/-- The labels after an edge into each of a list of targets. -/
def edgesInto (delivered : AbstractStack) (targets : List Label) (labels : LabelTable) : LabelTable :=
  targets.foldl (fun t l => t.recordEdge l delivered) labels

/-- Receiving edges changes the labels, and reports each label that had been placed in dead code. -/
theorem foldl_receiveEdge (delivered : AbstractStack) (targets : List Label) (d : Draft) :
    ∃ late, targets.foldl (receiveEdge delivered) d =
        { d with labels := edgesInto delivered targets d.labels, journal := late ++ d.journal } ∧
      (∀ entry ∈ late, ∃ l, entry = .lateEdge l delivered) ∧
      ∀ l ∈ targets, d.labels.isLateEdge l delivered = true → .lateEdge l delivered ∈ late := by
  induction targets generalizing d with
  | nil => exact ⟨[], rfl, by simp, by simp⟩
  | cons target rest ih =>
    have hreceive : ∃ late, receiveEdge delivered d target =
        { d with labels := d.labels.recordEdge target delivered, journal := late ++ d.journal } ∧
        (∀ entry ∈ late, ∃ l, entry = .lateEdge l delivered) ∧
        (d.labels.isLateEdge target delivered = true → .lateEdge target delivered ∈ late) := by
      cases hlate : d.labels.isLateEdge target delivered with
      | true =>
        refine ⟨[.lateEdge target delivered], ?_, by simp, by simp⟩
        simp only [receiveEdge, hlate, if_true, note, List.singleton_append]
      | false =>
        refine ⟨[], ?_, by simp, by simp⟩
        simp [receiveEdge, hlate]
    obtain ⟨late, hfirst, honly, hreported⟩ := hreceive
    obtain ⟨late', hfold, honly', hreported'⟩ := ih (receiveEdge delivered d target)
    refine ⟨late' ++ late, ?_, ?_, ?_⟩
    · rw [List.foldl_cons, hfold, hfirst, List.append_assoc]
      rfl
    · intro entry hentry
      rcases List.mem_append.mp hentry with hentry | hentry
      · exact honly' entry hentry
      · exact honly entry hentry
    · intro l hl hlate
      by_cases heq : l = target
      · subst heq
        exact List.mem_append_right late' (hreported hlate)
      · -- The first edge leaves every other label as it was.
        have hrest : l ∈ rest := (List.mem_cons.mp hl).resolve_left heq
        refine List.mem_append_left late (hreported' l hrest ?_)
        rw [hfirst, LabelTable.isLateEdge, LabelTable.state?_recordEdge, if_neg heq]
        exact hlate

/-- **`commitBranch_eq`** — the fields that a branch changes. -/
theorem commitBranch_eq (branch : Branch Label) (j : AbstractStack.Jump) (d : Draft) :
    ∃ late, d.commitBranch branch j =
        { d with
          labels := edgesInto j.delivered branch.targets d.labels
          records := d.records.push ⟨.branch branch, d.stack⟩
          stack := j.next
          maxStack := max d.maxStack (j.next.depth?.getD 0)
          journal := late ++ d.journal } ∧
      (∀ entry ∈ late, ∃ l, entry = .lateEdge l j.delivered) ∧
      ∀ l ∈ branch.targets, d.labels.isLateEdge l j.delivered = true →
        .lateEdge l j.delivered ∈ late := by
  obtain ⟨late, hfold, honly, hreported⟩ := foldl_receiveEdge j.delivered branch.targets d
  refine ⟨late, ?_, honly, hreported⟩
  rw [commitBranch, hfold]
  rfl

/-- The state of every label after a branch. -/
theorem state?_edgesInto (delivered : AbstractStack) (targets : List Label) (labels : LabelTable)
    (l : Label) :
    (edgesInto delivered targets labels).state? l =
      if l ∈ targets then (labels.state? l).map (·.meet delivered) else labels.state? l :=
  LabelTable.state?_recordEdges delivered targets labels l

end Draft

end ManagedCode
