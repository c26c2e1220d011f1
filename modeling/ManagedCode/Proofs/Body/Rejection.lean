/-
# ManagedCode.Proofs.Body.Rejection — what a refused call leaves behind.

A caller of a writer may go on after a refusal, so a refused call should leave the writer as it was.  There
are five ways to be refused (`Refuses`), and in three of them the writer updates its books before the check
that fails: a label that is placed again is moved, a protected block that is opened as a handler ends the
block it was opened for, and a handler that is closed after its block is dropped.  Where the update changes
a book (`Slips`) the writer lays out another body from then on.  Everywhere else a refused call cannot be
told from one that was never made.
-/
import ManagedCode.Proofs.Body.Writer
import ManagedCode.Proofs.Sink.Delivery

namespace ManagedCode.Body.Writer

/-! ## § Refusals -/

/-- **`Refuses`** — why a writer refuses a call, what it answers, and what it is afterwards. -/
inductive Refuses (w : Writer) : Delivery → EmitError → Writer → Prop
  | label {l : Label} {place : Nat} : w.labels.find? l = some place →
    Refuses w (.label l) (.duplicateLabel l) { w with labels := w.labels.insert l w.offset }
  | noBlock {g : TypeGraph} {region tryRegion : Region} {kind : RegionKind} :
    w.blocks.find? tryRegion = none →
    Refuses w (.beginRegion g region kind (some tryRegion)) (.nesting (.notProtectedBlock tryRegion)) w
  | tryAsHandler {g : TypeGraph} {region tryRegion : Region} {block : ProtectedBlock} :
    w.blocks.find? tryRegion = some block →
    Refuses w (.beginRegion g region .tryBlock (some tryRegion)) (.nesting .tryAsHandler)
      (w.endBlock tryRegion block)
  | notOpen {region : Region} : w.blocks.find? region = none → w.handlers.find? region = none →
    Refuses w (.endRegion region) (.nesting (.notOpen region)) w
  | blockLost {region : Region} {handler : OpenHandler} : w.blocks.find? region = none →
    w.handlers.find? region = some handler → handler.isFilterBlock = false →
    (w.blocks.find? handler.tryRegion).bind ProtectedBlock.stop = none →
    Refuses w (.endRegion region) (.nesting (.notProtectedBlock handler.tryRegion))
      { w with handlers := w.handlers.erase region }

theorem beginHandler_error_iff {g : TypeGraph} {region tryRegion : Region} {kind : RegionKind}
    {w w' : Writer} {e : EmitError} : beginHandler g region kind tryRegion w = .error e w' ↔
      w.Refuses (.beginRegion g region kind (some tryRegion)) e w' := by
  constructor
  · intro h
    cases hblock : w.blocks.find? tryRegion with
    | none =>
      rw [beginHandler.eq_1, hblock] at h
      cases h
      exact .noBlock hblock
    | some block =>
      by_cases hkind : kind = .tryBlock
      · subst hkind
        rw [beginHandler.eq_1, hblock] at h
        cases h
        exact .tryAsHandler hblock
      · obtain ⟨_, hok, -⟩ := beginHandler_eq g region hkind hblock
        cases hok.symm.trans h
  · intro h
    cases h with
    | noBlock hblock => rw [beginHandler.eq_1, hblock]
    | tryAsHandler hblock => rw [beginHandler.eq_1, hblock]

theorem endRegion_error_iff {region : Region} {w w' : Writer} {e : EmitError} :
    endRegion region w = .error e w' ↔ w.Refuses (.endRegion region) e w' := by
  constructor
  · intro h
    rw [endRegion.eq_1] at h
    cases hblock : w.blocks.find? region with
    | some block =>
      rw [hblock] at h
      cases h
    | none =>
      cases hhandler : w.handlers.find? region with
      | none =>
        simp only [hblock, hhandler] at h
        cases h
        exact .notOpen hblock hhandler
      | some handler =>
        simp only [hblock, hhandler, endHandler] at h
        split at h
        · cases h
        case isFalse hfilter =>
          split at h
          · cases h
          case h_2 howner =>
            cases h
            refine .blockLost hblock hhandler (Bool.eq_false_iff.mpr hfilter) ?_
            cases hstop : (w.blocks.find? handler.tryRegion).bind ProtectedBlock.stop with
            | none => rfl
            | some stop =>
              obtain ⟨⟨start, _⟩, hfound, rfl⟩ := Option.bind_eq_some_iff.mp hstop
              exact absurd hfound (howner start stop)
  · intro h
    cases h with
    | notOpen hblock hhandler =>
      rw [endRegion.eq_1, hblock]
      simp only [hhandler]
    | blockLost hblock hhandler hfilter howner =>
      rw [endRegion.eq_1, hblock]
      simp only [hhandler, endHandler, hfilter, Bool.false_eq_true, if_false]
      split
      · rename_i hfound
        rw [hfound] at howner
        cases howner
      · rfl

/-- **`make_error_iff`** — these are all refusals; code is never refused. -/
theorem make_error_iff {call : Delivery} {w w' : Writer} {e : EmitError} :
    call.make w = .error e w' ↔ w.Refuses call e w' := by
  cases call with
  | instruction g insn => exact ⟨nofun, nofun⟩
  | branch b => exact ⟨nofun, nofun⟩
  | endRegion region => exact endRegion_error_iff
  | beginRegion g region kind tryRegion =>
    cases tryRegion with
    | none => exact ⟨nofun, nofun⟩
    | some tryRegion => exact beginHandler_error_iff
  | label l =>
    constructor
    · intro h
      cases hplace : w.labels.find? l with
      | none => cases (markLabel_eq hplace).symm.trans h
      | some place =>
        have herror : markLabel l w = .error e w' := h
        rw [markLabel.eq_1, hplace] at herror
        cases herror
        exact .label hplace
    · intro h
      cases h with
      | label hplace =>
        show markLabel l w = _
        rw [markLabel.eq_1, hplace]

/-! ## § Writers that cannot be told apart -/

/-- **`Same`** — the books agree.  Labels may have been bound in another order. -/
structure Same (w w' : Writer) : Prop where
  rest : ∃ labels, w' = { w with labels }
  labels : ∀ l, w'.labels.find? l = w.labels.find? l

theorem Same.refl (w : Writer) : w.Same w := ⟨⟨w.labels, rfl⟩, fun _ => rfl⟩

/-- The answer to a call, missing if it is taken, and the writer that is left in either case. -/
def answer (call : Delivery) (w : Writer) : Option EmitError × Writer :=
  match call.make w with
  | .ok () w' => (none, w')
  | .error e w' => (some e, w')

/-- **`attempt`** — the answers to calls that are made one after the other, whether they are refused or not. -/
def attempt : List Delivery → Writer → List (Option EmitError) × Writer
  | [], w => ([], w)
  | call :: rest, w =>
    let (first, w') := answer call w
    let (others, w'') := attempt rest w'
    (first :: others, w'')

/-- Everything but placing a label neither reads the labels nor changes them. -/
theorem answer_relabel {call : Delivery} (hcall : ∀ l, call ≠ .label l) (w : Writer)
    (labels : Registry Label Nat) :
    answer call { w with labels } = ((answer call w).1, { (answer call w).2 with labels }) ∧
      (answer call w).2.labels = w.labels := by
  cases call with
  | label l => exact absurd rfl (hcall l)
  | instruction g insn => exact ⟨rfl, rfl⟩
  | branch b => exact ⟨rfl, rfl⟩
  | beginRegion g region kind tryRegion =>
    cases tryRegion with
    | none => exact ⟨rfl, rfl⟩
    | some tryRegion =>
      simp only [answer, Delivery.make, CodeSink.beginRegion, beginRegion, beginHandler]
      cases w.blocks.find? tryRegion with
      | none => exact ⟨rfl, rfl⟩
      | some block =>
        simp only [endBlock, offset, openHandler]
        cases block.stop <;> cases kind <;> cases w.pendingFilters.find? tryRegion <;> exact ⟨rfl, rfl⟩
  | endRegion region =>
    simp only [answer, Delivery.make, CodeSink.endRegion, endRegion, endHandler]
    cases w.blocks.find? region with
    | some block => exact ⟨rfl, rfl⟩
    | none =>
      cases w.handlers.find? region with
      | none => exact ⟨rfl, rfl⟩
      | some handler =>
        dsimp only
        cases handler.isFilterBlock with
        | true => exact ⟨rfl, rfl⟩
        | false =>
          cases w.blocks.find? handler.tryRegion with
          | none => exact ⟨rfl, rfl⟩
          | some block =>
            obtain ⟨start, stop⟩ := block
            cases stop <;> exact ⟨rfl, rfl⟩

/-- Placing a label reads whether it has a place. -/
theorem answer_label (l : Label) (w : Writer) :
    answer (.label l) w = ((w.labels.find? l).map fun _ => .duplicateLabel l,
      { w with labels := w.labels.insert l w.offset }) := by
  cases hplace : w.labels.find? l with
  | none =>
    have hok : Delivery.make (.label l) w = _ := markLabel_eq hplace
    rw [answer, hok]
    rfl
  | some place =>
    rw [answer, make_error_iff.mpr (.label hplace)]
    rfl

/-- **`Same.answer`** — one call: the same answer, and the books still agree. -/
theorem Same.answer {w w' : Writer} (h : w.Same w') (call : Delivery) :
    (Writer.answer call w').1 = (Writer.answer call w).1 ∧
      (Writer.answer call w).2.Same (Writer.answer call w').2 := by
  obtain ⟨⟨labels, rfl⟩, hlabels⟩ := h
  by_cases hcall : ∃ l, call = .label l
  · obtain ⟨l, rfl⟩ := hcall
    rw [answer_label, answer_label]
    refine ⟨by rw [hlabels], ⟨_, rfl⟩, fun l' => ?_⟩
    show (labels.insert l w.offset).find? l' = (w.labels.insert l w.offset).find? l'
    rw [Registry.find?_insert, Registry.find?_insert, hlabels]
  · obtain ⟨hsame, hkept⟩ := answer_relabel (fun l hl => hcall ⟨l, hl⟩) w labels
    rw [hsame]
    refine ⟨rfl, ⟨labels, rfl⟩, fun l => ?_⟩
    rw [hkept]
    exact hlabels l

/-- **`Same.attempt`** — and so any number of calls. -/
theorem Same.attempt {w w' : Writer} (h : w.Same w') (calls : List Delivery) :
    (Writer.attempt calls w').1 = (Writer.attempt calls w).1 ∧
      (Writer.attempt calls w).2.Same (Writer.attempt calls w').2 := by
  induction calls generalizing w w' with
  | nil => exact ⟨rfl, h⟩
  | cons call rest ih =>
    obtain ⟨hfirst, hsame⟩ := h.answer call
    obtain ⟨hothers, hlast⟩ := ih hsame
    refine ⟨?_, hlast⟩
    rw [Writer.attempt, Writer.attempt]
    exact congrArg₂ List.cons hfirst hothers

/-- **`Same.finish`** — the bodies are the same. -/
theorem Same.finish {w w' : Writer} (h : w.Same w') : w'.finish = w.finish := by
  obtain ⟨⟨labels, rfl⟩, hlabels⟩ := h
  have hresolve : resolve labels = resolve w.labels := by
    funext code fixup
    have hplace : labels.find? fixup.target = w.labels.find? fixup.target := hlabels fixup.target
    rw [resolve, resolve, hplace]
  rw [finish_eq, finish_eq, hresolve]
  rfl

/-! ## § Refusals that are felt -/

/-- **`Slips`** — the call is one that the writer enters in its books before it refuses it, and the entry
changes them: a label moves, a block ends, a handler is dropped. -/
def Slips (w : Writer) : Delivery → Prop
  | .label l => w.labels.find? l ≠ some w.offset
  | .beginRegion _ _ .tryBlock (some tryRegion) => ∃ start, w.blocks.find? tryRegion = some ⟨start, none⟩
  | .endRegion region => ∃ handler, w.handlers.find? region = some handler
  | _ => False

/-- A refused call leaves the books alone exactly if it does not slip. -/
theorem Refuses.same_iff {w w' : Writer} {call : Delivery} {e : EmitError} (h : w.Refuses call e w') :
    w.Same w' ↔ ¬ w.Slips call := by
  cases h with
  | @label l place hplace =>
    have hmoved (l' : Label) : (w.labels.insert l w.offset).find? l' =
        if l' = l then some w.offset else w.labels.find? l' := Registry.find?_insert _ _ _ _
    constructor
    · intro hsame hslip
      have hkept : (w.labels.insert l w.offset).find? l = w.labels.find? l := hsame.labels l
      rw [hmoved, if_pos rfl] at hkept
      exact hslip hkept.symm
    · intro hslip
      refine ⟨⟨_, rfl⟩, fun l' => ?_⟩
      show (w.labels.insert l w.offset).find? l' = _
      rw [hmoved]
      split
      case isTrue heq =>
        rw [heq]
        exact (not_not.mp hslip).symm
      case isFalse => rfl
  | @noBlock g region tryRegion kind hblock =>
    refine iff_of_true (.refl w) ?_
    cases kind with
    | tryBlock =>
      rintro ⟨start, hopen⟩
      cases hblock.symm.trans hopen
    | _ => exact id
  | @tryAsHandler g region tryRegion block hblock =>
    obtain ⟨start, stop⟩ := block
    cases stop with
    | some stop =>
      refine iff_of_true (.refl w) ?_
      rintro ⟨start', hopen⟩
      cases hblock.symm.trans hopen
    | none =>
      refine iff_of_false ?_ fun hslip => hslip ⟨start, hblock⟩
      rintro ⟨⟨labels, hrest⟩, -⟩
      have hended := find?_endBlock_eq hblock tryRegion
      rw [hrest, if_pos rfl, show ({ w with labels } : Writer).blocks = w.blocks from rfl, hblock] at hended
      cases hended
  | @notOpen region hblock hhandler =>
    refine iff_of_true (.refl w) ?_
    rintro ⟨handler, hopen⟩
    cases hhandler.symm.trans hopen
  | @blockLost region handler hblock hhandler hfilter howner =>
    refine iff_of_false ?_ fun hslip => hslip ⟨handler, hhandler⟩
    rintro ⟨⟨labels, hrest⟩, -⟩
    have hdropped : (w.handlers.erase region).find? region = none := Registry.find?_erase_self _ _
    have hkept : w.handlers.erase region = w.handlers := congrArg Writer.handlers hrest
    rw [hkept, hhandler] at hdropped
    cases hdropped

/-- What a refused call never touches. -/
theorem Refuses.code_eq {w w' : Writer} {call : Delivery} {e : EmitError} (h : w.Refuses call e w') :
    w'.code = w.code ∧ w'.fixups = w.fixups ∧ w'.pool = w.pool ∧ w'.pendingFilters = w.pendingFilters ∧
      w'.clauses = w.clauses := by
  cases h with
  | tryAsHandler =>
    obtain ⟨blocks, hend⟩ := endBlock_eq _ _ w
    rw [hend]
    exact ⟨rfl, rfl, rfl, rfl, rfl⟩
  | _ => exact ⟨rfl, rfl, rfl, rfl, rfl⟩

/-- **`refused_same_iff`** — whatever was called before, a refused call changes no code, pending filter or
clause, and it leaves the other books alone unless it slips.  If it does not slip, all later calls are answered
as if it had not been made, and the body is the same. -/
theorem refused_same_iff {w w' : Writer} {call : Delivery} {e : EmitError}
    (h : call.make w = .error e w') :
    w.Refuses call e w' ∧
      (w'.code = w.code ∧ w'.fixups = w.fixups ∧ w'.pool = w.pool ∧
        w'.pendingFilters = w.pendingFilters ∧ w'.clauses = w.clauses) ∧
      (w.Same w' ↔ ¬ w.Slips call) ∧
      (¬ w.Slips call → ∀ calls, (attempt calls w').1 = (attempt calls w).1 ∧
        (attempt calls w').2.finish = (attempt calls w).2.finish) := by
  have hrefused := make_error_iff.mp h
  refine ⟨hrefused, hrefused.code_eq, hrefused.same_iff, fun hslip calls => ?_⟩
  obtain ⟨hanswers, hlast⟩ := (hrefused.same_iff.mpr hslip).attempt calls
  exact ⟨hanswers, hlast.finish⟩

namespace SecondMark

/-- A jump to a label that is placed right behind it. -/
def placed : Writer := (attempt [.branch (.br ⟨0⟩), .label ⟨0⟩] .empty).2

/-- The label once more, at the same offset. -/
def repeated : Writer := (answer (.label ⟨0⟩) placed).2

/-- An instruction later. -/
def passed : Writer := (answer (.instruction .empty .nop) placed).2

/-- The label once more, at another offset. -/
def moved : Writer := (answer (.label ⟨0⟩) passed).2

/-- At the same offset nobody can tell. -/
theorem repeated_unfelt :
    Delivery.make (.label ⟨0⟩) placed = .error (.duplicateLabel ⟨0⟩) repeated ∧
      ∀ calls, (attempt calls repeated).1 = (attempt calls placed).1 ∧
        (attempt calls repeated).2.finish = (attempt calls placed).2.finish := by
  have hrefused : Delivery.make (.label ⟨0⟩) placed = .error (.duplicateLabel ⟨0⟩) repeated := rfl
  have hplace : placed.labels.find? ⟨0⟩ = some placed.offset := by decide +kernel
  obtain ⟨-, -, -, hunfelt⟩ := refused_same_iff hrefused
  exact ⟨hrefused, hunfelt fun hslip => hslip hplace⟩

/-- At another offset the jump leads elsewhere from then on. -/
theorem moved_elsewhere :
    Delivery.make (.label ⟨0⟩) passed = .error (.duplicateLabel ⟨0⟩) moved ∧
      passed.labels.find? ⟨0⟩ = some 5 ∧ moved.labels.find? ⟨0⟩ = some 6 ∧
      passed.finish.map MethodBody.code = .ok #[0x38, 0, 0, 0, 0, 0] ∧
      moved.finish.map MethodBody.code = .ok #[0x38, 1, 0, 0, 0, 0] := by
  refine ⟨rfl, ?_⟩
  decide +kernel

end SecondMark

end ManagedCode.Body.Writer
