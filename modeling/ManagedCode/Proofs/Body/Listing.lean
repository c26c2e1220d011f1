/-
# ManagedCode.Proofs.Body.Listing — what a piece of code says.

Different calls can ask for the same code.  The listing of calls has one line for everything that the code
tells apart, and forgets the rest:

* a conversion to truth values is one to bytes, and a conversion to characters one to 16-bit integers;
* the flag for checked conversions means nothing for floats, and the flag for unsigned sources nothing for
  unchecked conversions to integers;
* a conversion from an unsigned source to the narrow float is two lines, as it takes two steps;
* an access through an address is known by its opcode, or is the access to an object where it has none;
* a branch leads to offsets, by whatever labels they were marked.

Marking a label, opening and closing a region leave no line.
-/
import ManagedCode.Proofs.Body.Offsets
import Mathlib.Tactic.ByContra

namespace ManagedCode

open Body (Registry indirectOpcodes?)

/-! ## § Lines -/

/-- One line of a listing. -/
inductive Line
  | plain (insn : Instruction)
  /-- A load through an address, by its opcode. -/
  | loadThrough (opcode : UInt8)
  /-- A store through an address, by its opcode. -/
  | storeThrough (opcode : UInt8)
  /-- A branch to offsets of the code. -/
  | jump (branch : Branch Nat)
  deriving DecidableEq

/-- The integer that a conversion to the primitive yields; floats stay what they are. -/
def Primitive.converted : Primitive → Primitive
  | .boolean => .u8
  | .char => .u16
  | p => p

/-- The steps of a conversion. -/
def conversionSteps (target : Primitive) (checked unsignedSource : Bool) : List Instruction :=
  if target.isFloat then
    if unsignedSource then
      .conv .f64 false true :: if target = .f64 then [] else [.conv target false false]
    else [.conv target false false]
  else [.conv target.converted checked (checked && unsignedSource)]

/-- The line of an instruction that is not a conversion. -/
def Instruction.line (g : TypeGraph) : Instruction → Line
  | .ldind t =>
    match indirectOpcodes? (g.type t) with
    | some (load, _) => .loadThrough load
    | none => .plain (.ldobj t)
  | .stind t =>
    match indirectOpcodes? (g.type t) with
    | some (_, store) => .storeThrough store
    | none => .plain (.stobj t)
  | insn => .plain insn

/-- **`Instruction.lines`** — what a straight-line instruction says. -/
def Instruction.lines (g : TypeGraph) : Instruction → List Line
  | .conv target checked unsignedSource => (conversionSteps target checked unsignedSource).map .plain
  | insn => [insn.line g]

/-- What a call says, with the labels at their offsets. -/
def Delivery.lines (g : TypeGraph) (labels : Registry Label Nat) : Delivery → List Line
  | .instruction _ insn => insn.lines g
  | .branch b => [.jump (b.map fun l => (labels.find? l).getD 0)]
  | .label _ | .beginRegion _ _ _ _ | .endRegion _ => []

/-- **`codeLines`** — what calls say one after the other. -/
def codeLines (g : TypeGraph) (labels : Registry Label Nat) (calls : List Delivery) : List Line :=
  calls.flatMap (Delivery.lines g labels)

/-! ## § What is forgotten -/

/-- **`Instruction.Alike`** — the two instructions say the same. -/
inductive Instruction.Alike (g : TypeGraph) : Instruction → Instruction → Prop
  | same (insn : Instruction) : Alike g insn insn
  | toFloat {target : Primitive} (checked checked' unsignedSource : Bool) : target.isFloat = true →
      Alike g (.conv target checked unsignedSource) (.conv target checked' unsignedSource)
  | toInteger {target target' : Primitive} {checked unsignedSource unsignedSource' : Bool} :
      target.isFloat = false → target.converted = target'.converted →
      (checked = true → unsignedSource = unsignedSource') →
      Alike g (.conv target checked unsignedSource) (.conv target' checked unsignedSource')
  | load {t t' : TypeId} {opcode store store' : UInt8} :
      indirectOpcodes? (g.type t) = some (opcode, store) →
      indirectOpcodes? (g.type t') = some (opcode, store') → Alike g (.ldind t) (.ldind t')
  | loadObject {t : TypeId} : indirectOpcodes? (g.type t) = none → Alike g (.ldind t) (.ldobj t)
  | objectLoad {t : TypeId} : indirectOpcodes? (g.type t) = none → Alike g (.ldobj t) (.ldind t)
  | store {t t' : TypeId} {opcode load load' : UInt8} :
      indirectOpcodes? (g.type t) = some (load, opcode) →
      indirectOpcodes? (g.type t') = some (load', opcode) → Alike g (.stind t) (.stind t')
  | storeObject {t : TypeId} : indirectOpcodes? (g.type t) = none → Alike g (.stind t) (.stobj t)
  | objectStore {t : TypeId} : indirectOpcodes? (g.type t) = none → Alike g (.stobj t) (.stind t)

/-- Two conversions take the same steps if nothing tells them apart. -/
theorem conversionSteps_eq_iff (target target' : Primitive) (checked checked' unsignedSource
    unsignedSource' : Bool) :
    conversionSteps target checked unsignedSource = conversionSteps target' checked' unsignedSource' ↔
      target.converted = target'.converted ∧
        if target.isFloat then unsignedSource = unsignedSource'
        else checked = checked' ∧ (checked = true → unsignedSource = unsignedSource') := by
  have hall : ∀ target ∈ Primitive.all, ∀ target' ∈ Primitive.all,
      ∀ checked checked' unsignedSource unsignedSource',
      conversionSteps target checked unsignedSource = conversionSteps target' checked' unsignedSource' ↔
        target.converted = target'.converted ∧
          if target.isFloat then unsignedSource = unsignedSource'
          else checked = checked' ∧ (checked = true → unsignedSource = unsignedSource') := by
    decide +kernel
  exact hall target (by cases target <;> decide) target' (by cases target' <;> decide) _ _ _ _

/-- The steps of a conversion are conversions. -/
theorem conv_of_mem_conversionSteps {target : Primitive} {checked unsignedSource : Bool} {insn : Instruction}
    (h : insn ∈ conversionSteps target checked unsignedSource) :
    ∃ target checked unsignedSource, insn = .conv target checked unsignedSource := by
  rw [conversionSteps] at h
  split at h
  · split at h
    · rcases List.mem_cons.mp h with rfl | hrest
      · exact ⟨_, _, _, rfl⟩
      · split at hrest
        · cases hrest
        · exact ⟨_, _, _, List.mem_singleton.mp hrest⟩
    · exact ⟨_, _, _, List.mem_singleton.mp h⟩
  · exact ⟨_, _, _, List.mem_singleton.mp h⟩

namespace Instruction

variable {g : TypeGraph} {a b : Instruction}

/-- Only loads through an address are known by an opcode to load. -/
theorem line_eq_loadThrough {opcode : UInt8} (h : b.line g = .loadThrough opcode) :
    ∃ t store, b = .ldind t ∧ indirectOpcodes? (g.type t) = some (opcode, store) := by
  cases b with
  | ldind t =>
    rw [line] at h
    split at h
    · rename_i hopcodes
      cases h
      exact ⟨t, _, rfl, hopcodes⟩
    · cases h
  | stind t =>
    rw [line] at h
    split at h <;> cases h
  | _ => cases h

/-- Only stores through an address are known by an opcode to store. -/
theorem line_eq_storeThrough {opcode : UInt8} (h : b.line g = .storeThrough opcode) :
    ∃ t load, b = .stind t ∧ indirectOpcodes? (g.type t) = some (load, opcode) := by
  cases b with
  | stind t =>
    rw [line] at h
    split at h
    · rename_i hopcodes
      cases h
      exact ⟨t, _, rfl, hopcodes⟩
    · cases h
  | ldind t =>
    rw [line] at h
    split at h <;> cases h
  | _ => cases h

/-- Any other line is left by its instruction, or by access through an address that has no opcode. -/
theorem line_eq_plain {insn : Instruction} (h : b.line g = .plain insn) :
    b = insn ∨ (∃ t, insn = .ldobj t ∧ b = .ldind t ∧ indirectOpcodes? (g.type t) = none) ∨
      ∃ t, insn = .stobj t ∧ b = .stind t ∧ indirectOpcodes? (g.type t) = none := by
  cases b with
  | ldind t =>
    rw [line] at h
    split at h
    · cases h
    · rename_i hnone
      cases h
      exact .inr (.inl ⟨t, rfl, rfl, hnone⟩)
  | stind t =>
    rw [line] at h
    split at h
    · cases h
    · rename_i hnone
      cases h
      exact .inr (.inr ⟨t, rfl, rfl, hnone⟩)
  | _ =>
    cases h
    exact .inl rfl

theorem alike_of_line_eq (h : a.line g = b.line g) : a.Alike g b := by
  have hplain (ha : a.line g = .plain a) : a.Alike g b := by
    rw [ha] at h
    rcases line_eq_plain h.symm with rfl | ⟨t, rfl, rfl, hnone⟩ | ⟨t, rfl, rfl, hnone⟩
    · exact .same b
    · exact .objectLoad hnone
    · exact .objectStore hnone
  cases a with
  | ldind t =>
    cases hopcodes : indirectOpcodes? (g.type t) with
    | none =>
      rw [line, hopcodes] at h
      rcases line_eq_plain h.symm with rfl | ⟨t', heq, rfl, -⟩ | ⟨t', heq, -⟩
      · exact .loadObject hopcodes
      · cases heq
        exact .same _
      · cases heq
    | some opcodes =>
      rw [line, hopcodes] at h
      obtain ⟨t', store, rfl, hopcodes'⟩ := line_eq_loadThrough h.symm
      exact .load hopcodes hopcodes'
  | stind t =>
    cases hopcodes : indirectOpcodes? (g.type t) with
    | none =>
      rw [line, hopcodes] at h
      rcases line_eq_plain h.symm with rfl | ⟨t', heq, -⟩ | ⟨t', heq, rfl, -⟩
      · exact .storeObject hopcodes
      · cases heq
      · cases heq
        exact .same _
    | some opcodes =>
      rw [line, hopcodes] at h
      obtain ⟨t', load, rfl, hopcodes'⟩ := line_eq_storeThrough h.symm
      exact .store hopcodes hopcodes'
  | _ => exact hplain rfl

theorem lines_of_not_conversion
    (h : ∀ target checked unsignedSource, a ≠ .conv target checked unsignedSource) :
    a.lines g = [a.line g] := by
  cases a with
  | conv target checked unsignedSource => exact absurd rfl (h target checked unsignedSource)
  | _ => rfl

/-- Nothing but a conversion leaves the lines of a conversion. -/
theorem conv_of_lines_eq {target : Primitive} {checked unsignedSource : Bool}
    (h : b.lines g = (conversionSteps target checked unsignedSource).map .plain) :
    ∃ target' checked' unsignedSource', b = .conv target' checked' unsignedSource' := by
  by_contra hnot
  have hother : ∀ target checked unsignedSource, b ≠ .conv target checked unsignedSource :=
    fun target checked unsignedSource heq => hnot ⟨target, checked, unsignedSource, heq⟩
  rw [lines_of_not_conversion hother] at h
  have hmem : b.line g ∈ (conversionSteps target checked unsignedSource).map .plain :=
    h ▸ List.mem_singleton_self _
  obtain ⟨step, hstep, hline⟩ := List.mem_map.mp hmem
  obtain ⟨target', checked', unsignedSource', rfl⟩ := conv_of_mem_conversionSteps hstep
  rcases line_eq_plain hline.symm with rfl | ⟨t, heq, -⟩ | ⟨t, heq, -⟩
  · exact hother target' checked' unsignedSource' rfl
  · cases heq
  · cases heq

/-- **`lines_eq_iff`** — the lines of an instruction forget what tells instructions apart that are alike, and
nothing else. -/
theorem lines_eq_iff (g : TypeGraph) (a b : Instruction) : a.lines g = b.lines g ↔ a.Alike g b := by
  constructor
  · intro h
    by_cases hconv : ∃ target checked unsignedSource, a = .conv target checked unsignedSource
    · obtain ⟨target, checked, unsignedSource, rfl⟩ := hconv
      obtain ⟨target', checked', unsignedSource', rfl⟩ := conv_of_lines_eq h.symm
      have hsteps := List.map_injective_iff.mpr (fun _ _ => Line.plain.inj) h
      obtain ⟨htarget, hflags⟩ := (conversionSteps_eq_iff _ _ _ _ _ _).mp hsteps
      split at hflags
      · rename_i hfloat
        have hsame : target' = target := by
          cases target <;> cases target' <;>
            first | rfl | exact absurd hfloat (by decide) | exact absurd htarget (by decide)
        rw [hsame, ← hflags]
        exact .toFloat checked checked' unsignedSource hfloat
      · rename_i hinteger
        rw [← hflags.1]
        exact .toInteger (Bool.not_eq_true _ ▸ hinteger) htarget hflags.2
    · have hother : ∀ target checked unsignedSource, a ≠ .conv target checked unsignedSource :=
        fun target checked unsignedSource heq => hconv ⟨target, checked, unsignedSource, heq⟩
      have hother' : ∀ target checked unsignedSource, b ≠ .conv target checked unsignedSource := by
        rintro target checked unsignedSource rfl
        exact hconv (conv_of_lines_eq h)
      rw [lines_of_not_conversion hother, lines_of_not_conversion hother'] at h
      exact alike_of_line_eq (List.singleton_inj.mp h)
  · intro h
    cases h with
    | same => rfl
    | toFloat checked checked' unsignedSource hfloat =>
      rw [lines, lines, (conversionSteps_eq_iff _ _ _ _ _ _).mpr ⟨rfl, ?_⟩]
      rw [if_pos hfloat]
    | toInteger hinteger htarget hflags =>
      rw [lines, lines, (conversionSteps_eq_iff _ _ _ _ _ _).mpr ⟨htarget, ?_⟩]
      rw [if_neg (Bool.eq_false_iff.mp hinteger)]
      exact ⟨rfl, hflags⟩
    | load h h' => simp only [lines, line, h, h']
    | loadObject h => simp only [lines, line, h]
    | objectLoad h => simp only [lines, line, h]
    | store h h' => simp only [lines, line, h, h']
    | storeObject h => simp only [lines, line, h]
    | objectStore h => simp only [lines, line, h]

end Instruction

/-! ## § Literals -/

/-- An operand that is data and not the name of anything. -/
inductive Literal
  | index (index : UInt16)
  | int (value : Int32)
  | long (value : Int64)
  | single (bits : UInt32)
  | double (bits : UInt64)
  | text (text : String)
  deriving DecidableEq

/-- The literal of an instruction. -/
def Instruction.literal? : Instruction → Option Literal
  | .argument _ index | .localVariable _ index => some (.index index)
  | .ldcI4 value => some (.int value)
  | .ldcI8 value => some (.long value)
  | .ldcR4 bits => some (.single bits)
  | .ldcR8 bits => some (.double bits)
  | .ldstr text => some (.text text)
  | _ => none

/-- The literal of a call. -/
def Delivery.literal? : Delivery → Option Literal
  | .instruction _ insn => insn.literal?
  | _ => none

/-- The literal of a line. -/
def Line.literal? : Line → Option Literal
  | .plain insn => insn.literal?
  | _ => none

/-- **`literals_codeLines`** — a listing keeps every literal. -/
theorem literals_codeLines (g : TypeGraph) (labels : Registry Label Nat) (calls : List Delivery) :
    (codeLines g labels calls).filterMap Line.literal? = calls.filterMap Delivery.literal? := by
  have hinsn (insn : Instruction) : (insn.lines g).filterMap Line.literal? = insn.literal?.toList := by
    cases insn with
    | conv target checked unsignedSource =>
      rw [Instruction.lines, List.filterMap_map]
      refine List.filterMap_eq_nil_iff.mpr fun step hstep => ?_
      obtain ⟨_, _, _, rfl⟩ := conv_of_mem_conversionSteps hstep
      rfl
    | ldind t =>
      show [Instruction.line g (.ldind t)].filterMap Line.literal? = []
      rw [Instruction.line]
      split <;> rfl
    | stind t =>
      show [Instruction.line g (.stind t)].filterMap Line.literal? = []
      rw [Instruction.line]
      split <;> rfl
    | _ => rfl
  have hcall (call : Delivery) : (call.lines g labels).filterMap Line.literal? = call.literal?.toList := by
    cases call with
    | instruction _ insn => exact hinsn insn
    | _ => rfl
  induction calls with
  | nil => rfl
  | cons call rest ih =>
    rw [codeLines, List.flatMap_cons, List.filterMap_append, hcall]
    refine (congrArg (call.literal?.toList ++ ·) ih).trans ?_
    cases hliteral : call.literal? with
    | none => rw [List.filterMap_cons_none hliteral]; rfl
    | some literal => rw [List.filterMap_cons_some hliteral]; rfl

end ManagedCode
