/-
# ManagedCode.Proofs.Builder.Replay — the same operations over different sinks.

A builder never looks at its sink, so what it does over one sink it does over every sink that refuses none
of the calls.  The transcript refuses nothing and knows all calls that a builder makes.  `Echoes` compares a
step over any sink with the same step over a transcript: as long as the sink takes all the calls, the two
answer alike and leave the same draft.  It remains to see that the writer takes them all.
-/
import ManagedCode.Proofs.Builder.Layout
import ManagedCode.Proofs.Sink.Delivery

namespace ManagedCode

open Body (Writer Registry)
open RegionTracker (Nested)

/-! ## § Outcomes over two sinks -/

/-- The same answer or the same error, and the same draft; the sinks correspond. -/
def SameOutcome {σ τ α : Type} (corresponds : σ → τ → Prop) :
    EStateM.Result EmitError (Builder σ) α → EStateM.Result EmitError (Builder τ) α → Prop
  | .ok a b, .ok a' b' => a = a' ∧ b.draft = b'.draft ∧ corresponds b.sink b'.sink
  | .error e b, .error e' b' => e = e' ∧ b.draft = b'.draft ∧ corresponds b.sink b'.sink
  | _, _ => False

/-- Two outcomes that are the same as a third one are the same. -/
theorem SameOutcome.join {σ τ υ α : Type} {r : σ → υ → Prop} {r' : τ → υ → Prop}
    {x : EStateM.Result EmitError (Builder σ) α} {y : EStateM.Result EmitError (Builder τ) α}
    {z : EStateM.Result EmitError (Builder υ) α} (hx : SameOutcome r x z) (hy : SameOutcome r' y z) :
    SameOutcome (fun s t => ∃ u, r s u ∧ r' t u) x y := by
  cases z with
  | ok a b =>
    cases x with
    | error e b₁ => exact hx.elim
    | ok a₁ b₁ =>
      cases y with
      | error e b₂ => exact hy.elim
      | ok a₂ b₂ =>
        exact ⟨hx.1.trans hy.1.symm, hx.2.1.trans hy.2.1.symm, b.sink, hx.2.2, hy.2.2⟩
  | error e b =>
    cases x with
    | ok a₁ b₁ => exact hx.elim
    | error e₁ b₁ =>
      cases y with
      | ok a₂ b₂ => exact hy.elim
      | error e₂ b₂ =>
        exact ⟨hx.1.trans hy.1.symm, hx.2.1.trans hy.2.1.symm, b.sink, hx.2.2, hy.2.2⟩

/-- The builders that are left have the same draft, refused or not. -/
theorem SameOutcome.reached {σ τ α : Type} {r : σ → τ → Prop} {x : Build σ α} {y : Build τ α}
    {b : Builder σ} {b' : Builder τ} (h : SameOutcome r (x b) (y b')) :
    (x.reached b).draft = (y.reached b').draft ∧ r (x.reached b).sink (y.reached b').sink := by
  rw [Build.reached, Build.reached]
  cases hx : x b with
  | ok a b₁ =>
    cases hy : y b' with
    | ok a' b₂ =>
      rw [hx, hy] at h
      exact h.2
    | error e b₂ =>
      rw [hx, hy] at h
      exact h.elim
  | error e b₁ =>
    cases hy : y b' with
    | ok a' b₂ =>
      rw [hx, hy] at h
      exact h.elim
    | error e' b₂ =>
      rw [hx, hy] at h
      exact h.2

variable {σ : Type} [CodeSink σ]

/-- **`Echoes`** — a step does the same as another one over a transcript, if its sink takes the calls that the
transcript records. -/
structure Build.Echoes {α : Type} (origin : σ) (x : Build σ α) (y : Build Transcript α) : Prop where
  appends : ∀ b, b.sink.calls <+: (y.reached b).sink.calls
  agrees : ∀ d s t, Takes origin t.calls s → (∃ s', Takes origin (y.reached ⟨d, t⟩).sink.calls s') →
    SameOutcome (fun s' t' => Takes origin t'.calls s') (x ⟨d, s⟩) (y ⟨d, t⟩)

namespace Build

variable {α β : Type} {origin : σ}

theorem Echoes.pure (a : α) : Echoes origin (Pure.pure a) (Pure.pure a) :=
  ⟨fun _ => List.prefix_refl _, fun _ _ _ hs _ => ⟨rfl, rfl, hs⟩⟩

theorem Echoes.throw (e : EmitError) :
    Echoes origin (MonadExcept.throw e : Build σ α) (MonadExcept.throw e) :=
  ⟨fun _ => List.prefix_refl _, fun _ _ _ hs _ => ⟨rfl, rfl, hs⟩⟩

theorem Echoes.view (read : Draft → α) : Echoes origin (Builder.view read) (Builder.view read) :=
  ⟨fun _ => List.prefix_refl _, fun _ _ _ hs _ => ⟨rfl, rfl, hs⟩⟩

theorem Echoes.update (change : Draft → Draft) :
    Echoes origin (Builder.update change) (Builder.update change) :=
  ⟨fun _ => List.prefix_refl _, fun _ _ _ hs _ => ⟨rfl, rfl, hs⟩⟩

theorem Echoes.check (read : Draft → Except EmitError α) :
    Echoes origin (Builder.check read) (Builder.check read) := by
  refine ⟨fun b => ?_, fun d s t hs _ => ?_⟩
  · obtain ⟨d, t⟩ := b
    rw [reached, Builder.check_run]
    cases read d <;> exact List.prefix_refl _
  · rw [Builder.check_run, Builder.check_run]
    cases read d with
    | error e => exact ⟨rfl, rfl, hs⟩
    | ok a => exact ⟨rfl, rfl, hs⟩

/-- The only calls on a sink are forwarded ones. -/
theorem Echoes.forward (call : Delivery) :
    Echoes origin (Builder.forward call.make) (Builder.forward call.make) := by
  have hrun (d : Draft) (t : Transcript) :
      Builder.forward call.make ⟨d, t⟩ = .ok () ⟨d, t.add call⟩ := by
    rw [Builder.forward_run, Transcript.make_eq]
  refine ⟨fun b => ?_, fun d s t hs hall => ?_⟩
  · obtain ⟨d, t⟩ := b
    rw [reached, hrun]
    exact List.prefix_append _ _
  · obtain ⟨s', hs'⟩ := hall
    rw [reached, hrun] at hs'
    obtain ⟨s₁, hs₁, hcall⟩ := takes_concat.mp hs'
    cases hs.unique hs₁
    rw [Builder.forward_run, hcall, hrun]
    exact ⟨rfl, rfl, hs'⟩

theorem Echoes.bind {x : Build σ α} {y : Build Transcript α} {f : α → Build σ β}
    {g : α → Build Transcript β} (hx : Echoes origin x y) (hf : ∀ a, Echoes origin (f a) (g a)) :
    Echoes origin (x >>= f) (y >>= g) := by
  have hreached (b : Builder Transcript) : (y >>= g).reached b =
      match y b with
      | .ok a b' => (g a).reached b'
      | .error _ b' => b' := by
    rw [reached, Builder.bind_run]
    cases y b <;> rfl
  refine ⟨fun b => ?_, fun d s t hs hall => ?_⟩
  · have hfirst := hx.appends b
    rw [reached] at hfirst
    rw [hreached]
    cases hresult : y b with
    | error e b' => simpa only [hresult] using hfirst
    | ok a b' =>
      simp only [hresult] at hfirst
      exact hfirst.trans ((hf a).appends b')
  · have hfirst := hx.agrees d s t hs
    rw [reached] at hfirst
    rw [hreached] at hall
    rw [Builder.bind_run, Builder.bind_run]
    cases hresult : y ⟨d, t⟩ with
    | error e b' =>
      simp only [hresult] at hfirst hall ⊢
      have hsame := hfirst hall
      cases hx' : x ⟨d, s⟩ with
      | error e' b₁ =>
        rw [hx'] at hsame
        exact hsame
      | ok a b₁ =>
        rw [hx'] at hsame
        exact hsame.elim
    | ok a b' =>
      simp only [hresult] at hfirst hall ⊢
      obtain ⟨d', t'⟩ := b'
      -- The calls of the first step come first, so the sink takes them too.
      obtain ⟨s', hs'⟩ := hall
      have hsame := hfirst (hs'.of_prefix ((hf a).appends ⟨d', t'⟩))
      cases hx' : x ⟨d, s⟩ with
      | error e' b₁ =>
        rw [hx'] at hsame
        exact hsame.elim
      | ok a' b₁ =>
        rw [hx'] at hsame
        obtain ⟨d₁, s₁⟩ := b₁
        obtain ⟨rfl, rfl, hs₁⟩ := hsame
        exact (hf a').agrees d₁ s₁ t' hs₁ ⟨s', hs'⟩

end Build

/-! ## § Every operation is echoed -/

namespace Builder

open Build

variable {origin : σ}

theorem declareLocal_echoes (type : TypeId) : Echoes origin (declareLocal type) (declareLocal type) := by
  unfold declareLocal
  refine (Echoes.view _).bind fun count => ?_
  split
  · exact (Echoes.update _).bind fun _ => Echoes.pure _
  · exact Echoes.throw _

theorem defineLabel_echoes : Echoes origin defineLabel defineLabel :=
  (Echoes.view _).bind fun _ => (Echoes.update _).bind fun _ => Echoes.pure _

theorem markLabel_echoes (l : Label) : Echoes origin (markLabel l) (markLabel l) := by
  unfold markLabel
  refine (Echoes.check _).bind fun _ => (Echoes.check _).bind fun placed => ?_
  exact (Echoes.update _).bind fun _ => (Echoes.forward (.label l)).bind fun _ => Echoes.update _

theorem verify_echoes (insn : Instruction) : Echoes origin (verify insn) (verify insn) := by
  unfold verify
  refine (Echoes.update _).bind fun _ => (Echoes.view _).bind fun result => ?_
  cases result with
  | ok after => exact Echoes.pure _
  | error fault =>
    have hthrow : Echoes (α := AbstractStack) origin
        (MonadExcept.throw (.verification (.instruction insn) fault))
        (MonadExcept.throw (.verification (.instruction insn) fault)) := Echoes.throw _
    cases hentry : JournalEntry.ofFault? insn fault with
    | none =>
      simp only [hentry]
      exact hthrow
    | some entry =>
      simp only [hentry]
      exact (Echoes.update _).bind fun _ => hthrow

theorem pushInstruction_echoes (insn : Instruction) :
    Echoes origin (pushInstruction insn) (pushInstruction insn) := by
  have hemit : Echoes origin (verify insn >>= fun after => emitVerified insn after)
      (verify insn >>= fun after => emitVerified insn after) := by
    refine (verify_echoes insn).bind fun after => (Echoes.view _).bind fun g => ?_
    exact (Echoes.forward (.instruction g insn)).bind fun _ => (Echoes.update _).bind fun _ => Echoes.update _
  unfold pushInstruction
  split
  · exact (Echoes.check _).bind fun _ => hemit
  · exact hemit

theorem pushBranch_echoes (b : Branch Label) : Echoes origin (pushBranch b) (pushBranch b) :=
  (Echoes.check _).bind fun _ => (Echoes.forward (.branch b)).bind fun _ =>
    (Echoes.update _).bind fun _ => Echoes.update _

theorem beginTry_echoes : Echoes origin beginTry beginTry := by
  unfold beginTry
  refine (Echoes.check _).bind fun _ => defineLabel_echoes.bind fun _ => (Echoes.check _).bind fun opened => ?_
  refine (Echoes.update _).bind fun _ => (Echoes.view _).bind fun g => ?_
  exact (Echoes.forward (.beginRegion g opened.1 .tryBlock none)).bind fun _ =>
    (Echoes.update _).bind fun _ => Echoes.pure _

theorem openHandler_echoes (tryRegion : Region) (kind : RegionKind) :
    Echoes origin (openHandler tryRegion kind) (openHandler tryRegion kind) := by
  unfold openHandler
  refine (Echoes.check _).bind fun opened => (Echoes.update _).bind fun _ => (Echoes.view _).bind fun g => ?_
  exact (Echoes.forward (.beginRegion g opened.1 kind (some tryRegion))).bind fun _ =>
    (Echoes.update _).bind fun _ => (Echoes.update _).bind fun _ => Echoes.pure _

theorem beginHandler_echoes (tryRegion : Region) (kind : RegionKind) :
    Echoes origin (beginHandler tryRegion kind) (beginHandler tryRegion kind) := by
  unfold beginHandler
  refine (Echoes.check _).bind fun _ => (Echoes.check _).bind fun entry => (Echoes.view _).bind fun _ => ?_
  split
  · exact (pushBranch_echoes _).bind fun _ => openHandler_echoes tryRegion kind
  · exact openHandler_echoes tryRegion kind

theorem closeRegion_echoes (region : Region) (o : OpenRegion) :
    Echoes origin (closeRegion region o) (closeRegion region o) := by
  unfold closeRegion
  refine (Echoes.check _).bind fun _ => (Echoes.update _).bind fun _ => ?_
  refine (Echoes.forward (.endRegion region)).bind fun _ => (Echoes.update _).bind fun _ => ?_
  split
  · exact markLabel_echoes o.endLabel
  · exact Echoes.pure _

theorem endRegion_echoes (region : Region) : Echoes origin (endRegion region) (endRegion region) := by
  unfold endRegion
  refine (Echoes.check _).bind fun _ => (Echoes.check _).bind fun o => (Echoes.view _).bind fun reachable => ?_
  show Echoes origin
    (if o.kind.isHandler && reachable then pushBranch o.exit >>= fun _ => closeRegion region o
      else closeRegion region o)
    (if o.kind.isHandler && reachable then pushBranch o.exit >>= fun _ => closeRegion region o
      else closeRegion region o)
  split
  · exact (pushBranch_echoes o.exit).bind fun _ => closeRegion_echoes region o
  · exact closeRegion_echoes region o

end Builder

/-- What a caller gets from an operation. -/
inductive Answer
  | done
  | label (label : Label)
  | region (region : Region)
  | slot (slot : LocalSlot)
  deriving DecidableEq

namespace Answer

/-- The label that is handed out. -/
def label? : Answer → Option Label
  | .label l => some l
  | _ => none

end Answer

namespace Operation

/-- The operation with all that it answers. -/
def answer : Operation → Build σ Answer
  | .declareLocal t => do return .slot (← Builder.declareLocal t)
  | .defineLabel => do return .label (← Builder.defineLabel)
  | .markLabel l => do Builder.markLabel l; return .done
  | .instruction insn => do Builder.pushInstruction insn; return .done
  | .branch b => do Builder.pushBranch b; return .done
  | .beginTry => do return .region (← Builder.beginTry)
  | .beginHandler r kind => do return .region (← Builder.beginHandler r kind)
  | .endRegion r => do Builder.endRegion r; return .done
  | .constLong value => do Builder.constLong value; return .done
  | .signed choice => do Builder.signedOperation choice; return .done
  | .branchIf relation target => do Builder.branchIf relation target; return .done
  | .convert target checked => do Builder.convert target checked; return .done
  | .loadElement t => do Builder.loadElement t; return .done
  | .loadIndirect t => do Builder.loadIndirect t; return .done
  | .storeIndirect t => do Builder.storeIndirect t; return .done
  | .accessField access f => do Builder.accessField access f; return .done
  | .callVirtual m receiver => do Builder.callVirtual m receiver; return .done

/-- Sessions keep the labels of the answers. -/
theorem perform_eq_answer (op : Operation) :
    (op.perform : Build σ (Option Label)) = op.answer >>= fun a => pure a.label? := by
  cases op <;> simp only [perform, answer, bind_assoc, pure_bind] <;> rfl

theorem reached_perform (op : Operation) (b : Builder σ) : op.perform.reached b = op.answer.reached b := by
  rw [perform_eq_answer, Build.reached, Build.reached, Builder.bind_run]
  cases op.answer b <;> rfl

open Build Builder in
/-- **`answer_echoes`** — whatever a builder is asked for, it does the same over every sink that takes its
calls. -/
theorem answer_echoes (op : Operation) (origin : σ) : Echoes origin op.answer op.answer := by
  have hdone {α : Type} {x : Build σ α} {y : Build Transcript α} (h : Echoes origin x y) (f : α → Answer) :
      Echoes origin (x >>= fun a => pure (f a)) (y >>= fun a => pure (f a)) :=
    h.bind fun a => Echoes.pure (f a)
  have htwo (first second : Instruction) :
      Echoes origin (pushInstruction first >>= fun _ => pushInstruction second)
        (pushInstruction first >>= fun _ => pushInstruction second) :=
    (pushInstruction_echoes first).bind fun _ => pushInstruction_echoes second
  cases op with
  | declareLocal t => exact hdone (declareLocal_echoes t) _
  | defineLabel => exact hdone defineLabel_echoes _
  | markLabel l => exact hdone (markLabel_echoes l) _
  | instruction insn => exact hdone (pushInstruction_echoes insn) _
  | branch b => exact hdone (pushBranch_echoes b) _
  | beginTry => exact hdone beginTry_echoes _
  | beginHandler r kind => exact hdone (beginHandler_echoes r kind) _
  | endRegion r => exact hdone (endRegion_echoes r) _
  | constLong value =>
    refine hdone ?_ _
    unfold Builder.constLong
    split
    · exact htwo _ _
    · exact pushInstruction_echoes _
  | signed choice =>
    refine hdone ((Echoes.check _).bind fun sign => ?_) _
    cases choice.instruction? sign with
    | none => exact Echoes.pure _
    | some insn => exact pushInstruction_echoes insn
  | branchIf relation target =>
    refine hdone ?_ _
    unfold Builder.branchIf
    split
    · exact (Echoes.check _).bind fun sign => pushBranch_echoes _
    · exact (Echoes.pure _).bind fun sign => pushBranch_echoes _
  | convert target checked => exact hdone ((Echoes.check _).bind fun sign => pushInstruction_echoes _) _
  | loadElement t =>
    refine hdone ((Echoes.view _).bind fun isStruct => ?_) _
    split
    · exact htwo _ _
    · exact pushInstruction_echoes _
  | loadIndirect t =>
    refine hdone ((Echoes.view _).bind fun isStruct => ?_) _
    split <;> exact pushInstruction_echoes _
  | storeIndirect t =>
    refine hdone ((Echoes.view _).bind fun isStruct => ?_) _
    split <;> exact pushInstruction_echoes _
  | accessField access f =>
    refine hdone ((Echoes.view _).bind fun isStatic => ?_) _
    split <;> exact pushInstruction_echoes _
  | callVirtual m receiver =>
    refine hdone ?_ _
    cases receiver with
    | none => exact Echoes.throw _
    | some r =>
      refine (Echoes.view _).bind fun dispatch => ?_
      cases dispatch with
      | direct => exact pushInstruction_echoes _
      | «virtual» => exact pushInstruction_echoes _
      | constrained => exact htwo _ _

end Operation

/-! ## § Sessions over two sinks -/

namespace Session

/-- **`Mirrors`** — a session and one over a transcript have come to the same draft and the same handles, and
the sink has taken the calls that the transcript records. -/
structure Mirrors (origin : σ) (s : Session σ) (t : Session Transcript) : Prop where
  draft : s.builder.draft = t.builder.draft
  handles : s.handles = t.handles
  taken : Takes origin t.builder.sink.calls s.builder.sink

theorem run_concat (s : Session σ) (ops : List Operation) (op : Operation) :
    s.run (ops ++ [op]) = (s.run ops).call op := List.foldl_concat _ _ _ _

/-- Operations add to the transcript. -/
theorem calls_prefix_call (t : Session Transcript) (op : Operation) :
    t.builder.sink.calls <+: (t.call op).builder.sink.calls := by
  rw [builder_call, op.reached_perform]
  exact (op.answer_echoes Transcript.empty).appends t.builder

theorem calls_prefix_run (t : Session Transcript) (ops : List Operation) :
    t.builder.sink.calls <+: (t.run ops).builder.sink.calls := by
  induction ops generalizing t with
  | nil => exact List.prefix_refl _
  | cons op rest ih => exact (calls_prefix_call t op).trans (ih _)

variable {origin : σ} {s : Session σ} {t : Session Transcript}

/-- The next operation has the same outcome on both sides, if the sink takes its calls. -/
theorem Mirrors.outcome (h : Mirrors origin s t) (op : Operation)
    (hall : ∃ s', Takes origin (t.call op).builder.sink.calls s') :
    SameOutcome (fun s' t' => Takes origin t'.calls s') (op.answer s.builder) (op.answer t.builder) := by
  obtain ⟨⟨d, w⟩, handles⟩ := s
  obtain ⟨⟨d', w'⟩, handles'⟩ := t
  obtain ⟨rfl, -, htaken⟩ := h
  rw [builder_call, op.reached_perform] at hall
  exact (op.answer_echoes origin).agrees d w w' htaken hall

theorem Mirrors.call (h : Mirrors origin s t) (op : Operation)
    (hall : ∃ s', Takes origin (t.call op).builder.sink.calls s') :
    Mirrors origin (s.call op) (t.call op) := by
  have hsame := h.outcome op hall
  rw [Session.call, Session.call]
  simp only [op.perform_eq_answer, Builder.bind_run]
  cases hs : op.answer s.builder with
  | error e b =>
    cases ht : op.answer t.builder with
    | ok a b' =>
      rw [hs, ht] at hsame
      exact hsame.elim
    | error e' b' =>
      rw [hs, ht] at hsame
      exact ⟨hsame.2.1, h.handles, hsame.2.2⟩
  | ok a b =>
    cases ht : op.answer t.builder with
    | error e b' =>
      rw [hs, ht] at hsame
      exact hsame.elim
    | ok a' b' =>
      rw [hs, ht] at hsame
      obtain ⟨rfl, hdraft, htaken⟩ := hsame
      exact ⟨hdraft, congrArg (a.label?.toList ++ ·) h.handles, htaken⟩

/-- **`Mirrors.run`** — sessions mirror each other as long as the sink takes the calls. -/
theorem Mirrors.run (h : Mirrors origin s t) {ops : List Operation}
    (hall : ∃ s', Takes origin (t.run ops).builder.sink.calls s') : Mirrors origin (s.run ops) (t.run ops) := by
  induction ops generalizing s t with
  | nil => exact h
  | cons op rest ih =>
    obtain ⟨s', hs'⟩ := hall
    have hfirst := h.call op (hs'.of_prefix (calls_prefix_run (t.call op) rest))
    exact ih hfirst ⟨s', hs'⟩

theorem mirrors_start (g : TypeGraph) (system : SystemTypes) (method : MethodId) (origin : σ) :
    Mirrors origin (start g system method origin) (start g system method Transcript.empty) :=
  ⟨rfl, rfl, takes_nil.mpr rfl⟩

/-- The recording takes everything. -/
theorem mirrors_recording (g : TypeGraph) (system : SystemTypes) (method : MethodId) (ops : List Operation) :
    Mirrors Recording.empty ((start g system method Recording.empty).run ops)
      ((start g system method Transcript.empty).run ops) :=
  (mirrors_start g system method Recording.empty).run (Recording.takes _ _)

end Session

end ManagedCode
