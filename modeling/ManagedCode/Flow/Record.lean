/-
# ManagedCode.Flow.Record — emitted instructions with the stacks they were verified against.

A body keeps a record per instruction, so that it can be listed with its inferred stacks.
-/
import ManagedCode.Flow.Region
import ManagedCode.Instruction.Text
import ManagedCode.Stack.Abstract

namespace ManagedCode

/-- An instruction of either sort, as it stands in a body. -/
inductive CodeItem
  | straight (insn : Instruction)
  | branch (branch : Branch Label)
  deriving DecidableEq, Inhabited

namespace CodeItem

/-- The instruction in assembler syntax. -/
def text (g : TypeGraph) : CodeItem → String
  | .straight insn => insn.text g
  | .branch b => b.text Label.text

/-- Control never continues with the next instruction. -/
def isTerminal : CodeItem → Bool
  | .straight _ => false
  | .branch b => b.isTerminal

end CodeItem

/-- An emitted instruction and the stack just before it. -/
structure InstructionRecord where
  item : CodeItem
  stackBefore : AbstractStack
  deriving DecidableEq, Inhabited

namespace InstructionRecord

/-- Width of the column that instructions are listed in. -/
def column : Nat := 24

/-- The instruction in its column, followed by the stack as a comment. -/
def line (g : TypeGraph) (r : InstructionRecord) : String :=
  Text.padTo column (r.item.text g) ++ "// " ++ r.stackBefore.text g

end InstructionRecord

/-- **`listing`** — records one per line, each line ended. -/
def listing (g : TypeGraph) (records : Array InstructionRecord) : String :=
  String.join (records.toList.map fun r => r.line g ++ "\n")

end ManagedCode
