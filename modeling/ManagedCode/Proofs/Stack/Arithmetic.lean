/-
# ManagedCode.Proofs.Stack.Arithmetic — the type of an arithmetic expression.

Code pushes the operands of an expression in some order and combines them two at a time.  Two operands can be
combined if their classes are of one family (`family?`), and what they come to (`combined`) is of that family
again: the operand that the machine widens the other to, the type on which operands of one class agree, or the
system type of the class where they do not agree.  So the type of an expression depends neither on the order
of its operands nor on how they are grouped.

Addresses are the exception.  They can be combined with integers and with each other, in any order, but the
distance between two of them is an integer and no longer an address: of three addresses the grouping chooses
which one is moved (`assoc_iff`).
-/
import ManagedCode.Proofs.Graph.Evolution
import ManagedCode.Proofs.Stack.Substitution
import Mathlib.Data.List.Perm.Basic

namespace ManagedCode

/-- A computation that may fail, after another one. -/
theorem Except.toOption_bind {ε α β : Type} (x : Except ε α) (f : α → Except ε β) :
    (x >>= f).toOption = x.toOption.bind fun a => (f a).toOption := by
  cases x <;> rfl

theorem Except.toOption_eq_some_iff {ε α : Type} {x : Except ε α} {a : α} :
    x.toOption = some a ↔ x = .ok a := by
  cases x <;> simp [Except.toOption]

/-! ## § The system types of numbers -/

/-- The system types that stand for numbers of a class are of that class. -/
def SystemTypes.Classified (system : SystemTypes) (g : TypeGraph) : Prop :=
  ∀ {c t}, system.ofClass? c = some t → (TypeTag.value t).stackClass g = c

/-- Where the system types come first, no other type can have taken the name of a number. -/
theorem SystemTypes.classified_of_evolves {edges : Bool} {g : TypeGraph}
    (h : TypeGraph.Evolves edges TypeGraph.empty.addSystemTypes.2 g) :
    TypeGraph.empty.addSystemTypes.1.Classified g := by
  have hfresh : ∀ c ∈ [StackClass.int32, .int64, .nativeInt, .float],
      ∀ t ∈ TypeGraph.empty.addSystemTypes.1.ofClass? c, TypeGraph.empty.addSystemTypes.2.Knows t ∧
        (TypeTag.value t).stackClass TypeGraph.empty.addSystemTypes.2 = c := by
    decide +kernel
  intro c t ht
  have hnumber : c ∈ [StackClass.int32, .int64, .nativeInt, .float] := by
    cases c with
    | int32 | int64 | nativeInt | float => decide
    | address | object | valueType => cases ht
  obtain ⟨hknown, hclass⟩ := hfresh c hnumber t ht
  rwa [TypeTag.stackClass_wider (h.wider TypeGraph.Built.empty.addSystemTypes)
    (TypeTag.known_value.mpr hknown)]

/-! ## § Families of classes -/

namespace StackClass

/-- **`family?`** — the widest class of numbers that an operand of the class can be combined with; an address
counts as a native integer. -/
def family? (addresses floats : Bool) : StackClass → Option StackClass
  | .int32 | .nativeInt => some .nativeInt
  | .int64 => some .int64
  | .float => if floats then some .float else none
  | .address => if addresses then some .nativeInt else none
  | .object | .valueType => none

/-- Of two classes of one family, the operand of the class that ranks higher is the one that is kept. -/
def rank : StackClass → Nat
  | .address => 2
  | .nativeInt => 1
  | _ => 0

variable {addresses floats : Bool} {c c' family : StackClass}

/-- Two classes of one family have two ranks. -/
theorem eq_of_rank_eq (h : c.family? addresses floats = some family)
    (h' : c'.family? addresses floats = some family) (hrank : c.rank = c'.rank) : c = c' := by
  cases c <;> cases c' <;> grind [family?, rank]

/-- An operand that ranks below an address is an integer, and so is one that ranks above one. -/
theorem integer_of_family? (h : c.family? addresses floats = some family)
    (h' : address.family? addresses floats = some family) (hne : c ≠ .address) :
    c = .int32 ∨ c = .nativeInt := by
  cases c <;> grind [family?]

/-- What can be combined is a number of a class that has a system type, or an address. -/
theorem ofClass?_of_family? (system : SystemTypes) (h : c.family? addresses floats = some family)
    (hne : c ≠ .address) : ∃ t, system.ofClass? c = some t := by
  cases c with
  | int32 | int64 | nativeInt | float => exact ⟨_, rfl⟩
  | address => exact absurd rfl hne
  | object | valueType => cases h

end StackClass

namespace PairRule

/-! ## § What two operands come to -/

variable {g : TypeGraph} {system : SystemTypes} {addresses floats : Bool} {a b c : TypeTag}

/-- What two operands of one class come to: the type that they agree on or the system type of their class;
the distance between two addresses is a native integer. -/
def agreed (system : SystemTypes) (kind : StackClass) (a b : TypeTag) : TypeTag :=
  match system.ofClass? kind with
  | some t => if a = b then a else .value t
  | none => .value system.intptr

/-- **`combined`** — what two operands of one family come to. -/
def combined (g : TypeGraph) (system : SystemTypes) (a b : TypeTag) : TypeTag :=
  if a.stackClass g = b.stackClass g then agreed system (a.stackClass g) a b
  else if (a.stackClass g).rank < (b.stackClass g).rank then b else a

/-- The two operands are of one family. -/
def Combinable (g : TypeGraph) (addresses floats : Bool) (a b : TypeTag) : Prop :=
  ∃ family, (a.stackClass g).family? addresses floats = some family ∧
    (b.stackClass g).family? addresses floats = some family

/-- **`result?_arithmetic_iff`** — operands have a result exactly if they are of one family. -/
theorem result?_arithmetic_iff {tag : TypeTag} :
    (arithmetic addresses floats).result? g system a b = some tag ↔
      Combinable g addresses floats a b ∧ tag = combined g system a b := by
  rw [result?, arithmeticResult, Combinable, combined]
  cases a.stackClass g <;> cases b.stackClass g <;>
    simp [StackClass.family?, StackClass.rank, agreed, SystemTypes.ofClass?, eq_comm (a := tag)]

theorem toOption_result (rule : PairRule) (a b : TypeTag) :
    (rule.result g system a b).toOption = rule.result? g system a b := by
  ext tag
  rw [Except.toOption_eq_some_iff, StackEffect.PairRule.result_ok_iff]

theorem Combinable.symm (h : Combinable g addresses floats a b) : Combinable g addresses floats b a := by
  obtain ⟨family, ha, hb⟩ := h
  exact ⟨family, hb, ha⟩

theorem agreed_comm (kind : StackClass) (a b : TypeTag) :
    agreed system kind a b = agreed system kind b a := by
  rw [agreed, agreed]
  split
  · by_cases hab : a = b
    · rw [hab]
    · rw [if_neg hab, if_neg (Ne.symm hab)]
  · rfl

/-- **`Combinable.combined_comm`** — the order of two operands does not matter. -/
theorem Combinable.combined_comm (h : Combinable g addresses floats a b) :
    combined g system a b = combined g system b a := by
  rw [combined, combined]
  by_cases hab : a.stackClass g = b.stackClass g
  · rw [if_pos hab, if_pos hab.symm, hab, agreed_comm]
  · obtain ⟨family, ha, hb⟩ := h
    have hrank : (a.stackClass g).rank ≠ (b.stackClass g).rank :=
      fun heq => hab (StackClass.eq_of_rank_eq ha hb heq)
    rw [if_neg hab, if_neg (Ne.symm hab)]
    by_cases hlt : (a.stackClass g).rank < (b.stackClass g).rank
    · rw [if_pos hlt, if_neg (by omega)]
    · rw [if_neg hlt, if_pos (by omega)]

/-- **`result?_comm`** — two operands come to the same in either order. -/
theorem result?_comm (a b : TypeTag) : (arithmetic addresses floats).result? g system a b =
    (arithmetic addresses floats).result? g system b a := by
  ext tag
  rw [result?_arithmetic_iff, result?_arithmetic_iff]
  constructor
  · rintro ⟨h, rfl⟩
    exact ⟨h.symm, h.combined_comm⟩
  · rintro ⟨h, rfl⟩
    exact ⟨h.symm, h.combined_comm⟩

/-! ## § Three operands -/

/-- What operands of one class agree on does not depend on how they are grouped. -/
theorem agreed_assoc {kind : StackClass} {t : TypeId} (ht : system.ofClass? kind = some t) (a b c : TypeTag) :
    agreed system kind (agreed system kind a b) c = agreed system kind a (agreed system kind b c) := by
  simp only [agreed, ht]
  split_ifs <;> simp_all

theorem combined_of_class_eq (h : a.stackClass g = b.stackClass g) :
    combined g system a b = agreed system (a.stackClass g) a b := if_pos h

theorem combined_of_lt (h : (a.stackClass g).rank < (b.stackClass g).rank) : combined g system a b = b := by
  have hne : a.stackClass g ≠ b.stackClass g := fun heq => Nat.ne_of_lt h (congrArg StackClass.rank heq)
  rw [combined, if_neg hne, if_pos h]

theorem combined_of_gt (h : (b.stackClass g).rank < (a.stackClass g).rank) : combined g system a b = a := by
  have hne : a.stackClass g ≠ b.stackClass g := fun heq => Nat.ne_of_gt h (congrArg StackClass.rank heq)
  rw [combined, if_neg hne, if_neg (Nat.lt_asymm h)]

theorem combined_addresses (ha : a.stackClass g = .address) (hb : b.stackClass g = .address) :
    combined g system a b = .value system.intptr := by
  rw [combined_of_class_eq (ha.trans hb.symm), ha]
  rfl

section Grouping

variable {family : StackClass} (hs : system.Classified g)
  (ha : (a.stackClass g).family? addresses floats = some family)
  (hb : (b.stackClass g).family? addresses floats = some family)
  (hc : (c.stackClass g).family? addresses floats = some family)
include hs

/-- The distance between two addresses is a native integer, whatever integer it is combined with. -/
theorem combined_intptr (h : a.stackClass g = .int32 ∨ a.stackClass g = .nativeInt) :
    combined g system a (.value system.intptr) = .value system.intptr := by
  have hclass : (TypeTag.value system.intptr).stackClass g = .nativeInt := hs rfl
  rcases h with h | h
  · exact combined_of_lt (by rw [h, hclass]; decide)
  · rw [combined_of_class_eq (h.trans hclass.symm), h]
    exact ite_eq_right_iff.mpr id

include ha

/-- What two operands of one class come to is of their class, unless they are addresses. -/
theorem stackClass_combined (h : a.stackClass g = b.stackClass g) (hne : a.stackClass g ≠ .address) :
    (combined g system a b).stackClass g = a.stackClass g := by
  obtain ⟨t, ht⟩ := StackClass.ofClass?_of_family? system ha hne
  rw [combined_of_class_eq h, agreed, ht]
  dsimp only
  split
  · rfl
  · exact hs ht

theorem rank_combined_le (h : a.stackClass g = b.stackClass g) :
    ((combined g system a b).stackClass g).rank ≤ (a.stackClass g).rank := by
  by_cases haddress : a.stackClass g = .address
  · have hdistance : (TypeTag.value system.intptr).stackClass g = .nativeInt := hs rfl
    rw [combined_addresses haddress (h ▸ haddress), hdistance, haddress]
    decide
  · rw [stackClass_combined hs ha h haddress]

include hb

/-- **`family?_combined`** — what two operands of one family come to is of that family. -/
theorem family?_combined :
    ((combined g system a b).stackClass g).family? addresses floats = some family := by
  rcases lt_trichotomy (a.stackClass g).rank (b.stackClass g).rank with hlt | heq | hgt
  · rwa [combined_of_lt hlt]
  · have hclass := StackClass.eq_of_rank_eq ha hb heq
    by_cases haddress : a.stackClass g = .address
    · have hdistance : (TypeTag.value system.intptr).stackClass g = .nativeInt := hs rfl
      rw [combined_addresses haddress (hclass ▸ haddress), hdistance]
      rw [haddress] at ha
      cases addresses with
      | true => exact ha
      | false => cases ha
    · rwa [stackClass_combined hs ha hclass haddress]
  · rwa [combined_of_gt hgt]

/-- What two operands of one class come to is kept when it is combined with an operand that ranks lower. -/
theorem combined_pair (h : b.stackClass g = c.stackClass g)
    (hlt : (a.stackClass g).rank < (b.stackClass g).rank) :
    combined g system a (combined g system b c) = combined g system b c := by
  by_cases haddress : b.stackClass g = .address
  · rw [haddress] at hb hlt
    have hinteger : a.stackClass g ≠ .address := fun heq => Nat.ne_of_lt hlt (congrArg StackClass.rank heq)
    rw [combined_addresses haddress (h ▸ haddress)]
    exact combined_intptr hs (StackClass.integer_of_family? ha hb hinteger)
  · exact combined_of_lt (by rwa [stackClass_combined hs hb h haddress])

include hc

/-- **`combined_assoc`** — the grouping of three operands does not matter, unless all three are addresses. -/
theorem combined_assoc (hne : ¬ (a.stackClass g = .address ∧ b.stackClass g = .address ∧
      c.stackClass g = .address)) :
    combined g system (combined g system a b) c = combined g system a (combined g system b c) := by
  rcases lt_trichotomy (a.stackClass g).rank (b.stackClass g).rank with hab | hab | hab
  · rw [combined_of_lt hab]
    rcases lt_trichotomy (b.stackClass g).rank (c.stackClass g).rank with hbc | hbc | hbc
    · rw [combined_of_lt hbc, combined_of_lt (hab.trans hbc)]
    · exact (combined_pair hs ha hb (StackClass.eq_of_rank_eq hb hc hbc) hab).symm
    · rw [combined_of_gt hbc, combined_of_lt hab]
  · have hclass := StackClass.eq_of_rank_eq ha hb hab
    rcases lt_trichotomy (b.stackClass g).rank (c.stackClass g).rank with hbc | hbc | hbc
    · rw [combined_of_lt hbc, combined_of_lt (lt_of_eq_of_lt hab hbc)]
      exact combined_of_lt ((rank_combined_le hs ha hclass).trans_lt (lt_of_eq_of_lt hab hbc))
    · -- All three are of one class, and no addresses.
      have hclass' := StackClass.eq_of_rank_eq hb hc hbc
      have hnumber : a.stackClass g ≠ .address := fun heq =>
        hne ⟨heq, hclass ▸ heq, hclass' ▸ hclass ▸ heq⟩
      have hleft := stackClass_combined hs ha hclass hnumber
      have hright := stackClass_combined hs hb hclass' (hclass ▸ hnumber)
      obtain ⟨t, ht⟩ := StackClass.ofClass?_of_family? system ha hnumber
      rw [combined_of_class_eq (hleft.trans (hclass.trans hclass')), hleft,
        combined_of_class_eq (hclass.trans hright.symm), combined_of_class_eq hclass,
        combined_of_class_eq hclass', ← hclass]
      exact agreed_assoc ht a b c
    · rw [combined_of_gt hbc, Combinable.combined_comm ⟨family, family?_combined hs ha hb, hc⟩]
      exact combined_pair hs hc ha hclass (lt_of_lt_of_eq hbc hab.symm)
  · rw [combined_of_gt hab]
    rcases lt_trichotomy (b.stackClass g).rank (c.stackClass g).rank with hbc | hbc | hbc
    · rw [combined_of_lt hbc]
    · rw [combined_of_gt (lt_of_eq_of_lt hbc.symm hab)]
      have hpair := rank_combined_le hs hb (StackClass.eq_of_rank_eq hb hc hbc)
      exact (combined_of_gt (hpair.trans_lt hab)).symm
    · rw [combined_of_gt hbc, combined_of_gt hab, combined_of_gt (hbc.trans hab)]

omit ha hb hc in
/-- **`combined_addresses_assoc_iff`** — of three addresses the one outside the group is kept. -/
theorem combined_addresses_assoc_iff (ha : a.stackClass g = .address) (hb : b.stackClass g = .address)
    (hc : c.stackClass g = .address) :
    combined g system (combined g system a b) c = combined g system a (combined g system b c) ↔ a = c := by
  have hdistance : (TypeTag.value system.intptr).stackClass g = .nativeInt := hs rfl
  rw [combined_addresses ha hb, combined_addresses hb hc, combined_of_lt (by rw [hdistance, hc]; decide),
    combined_of_gt (by rw [hdistance, ha]; decide)]
  exact eq_comm

end Grouping

/-- Three operands, of which the first two are grouped. -/
theorem bind_result?_left_iff (hs : system.Classified g) {tag : TypeTag} :
    (((arithmetic addresses floats).result? g system a b).bind fun t =>
        (arithmetic addresses floats).result? g system t c) = some tag ↔
      ∃ family, (a.stackClass g).family? addresses floats = some family ∧
        (b.stackClass g).family? addresses floats = some family ∧
        (c.stackClass g).family? addresses floats = some family ∧
        tag = combined g system (combined g system a b) c := by
  simp only [Option.bind_eq_some_iff, result?_arithmetic_iff]
  constructor
  · rintro ⟨_, ⟨⟨family, ha, hb⟩, rfl⟩, ⟨family', hab, hc⟩, rfl⟩
    cases (family?_combined hs ha hb).symm.trans hab
    exact ⟨family, ha, hb, hc, rfl⟩
  · rintro ⟨family, ha, hb, hc, rfl⟩
    exact ⟨_, ⟨⟨family, ha, hb⟩, rfl⟩, ⟨family, family?_combined hs ha hb, hc⟩, rfl⟩

/-- Three operands, of which the last two are grouped. -/
theorem bind_result?_right_iff (hs : system.Classified g) {tag : TypeTag} :
    (((arithmetic addresses floats).result? g system b c).bind fun t =>
        (arithmetic addresses floats).result? g system a t) = some tag ↔
      ∃ family, (a.stackClass g).family? addresses floats = some family ∧
        (b.stackClass g).family? addresses floats = some family ∧
        (c.stackClass g).family? addresses floats = some family ∧
        tag = combined g system a (combined g system b c) := by
  simp only [Option.bind_eq_some_iff, result?_arithmetic_iff]
  constructor
  · rintro ⟨_, ⟨⟨family, hb, hc⟩, rfl⟩, ⟨family', ha, hbc⟩, rfl⟩
    cases (family?_combined hs hb hc).symm.trans hbc
    exact ⟨family, ha, hb, hc, rfl⟩
  · rintro ⟨family, ha, hb, hc, rfl⟩
    exact ⟨_, ⟨⟨family, hb, hc⟩, rfl⟩, ⟨family, ha, family?_combined hs hb hc⟩, rfl⟩

/-- **`assoc_iff`** — the grouping of three operands matters exactly if they are addresses of which the first
and the last refer to different types. -/
theorem assoc_iff (hs : system.Classified g) (a b c : TypeTag) :
    (((arithmetic addresses floats).result? g system a b).bind fun t =>
        (arithmetic addresses floats).result? g system t c) =
      (((arithmetic addresses floats).result? g system b c).bind fun t =>
        (arithmetic addresses floats).result? g system a t) ↔
      (addresses = true → a.stackClass g = .address → b.stackClass g = .address →
        c.stackClass g = .address → a = c) := by
  constructor
  · rintro h rfl ha hb hc
    have hfamily : StackClass.address.family? true floats = some .nativeInt := rfl
    have hleft : (((arithmetic true floats).result? g system a b).bind fun t =>
        (arithmetic true floats).result? g system t c) = some (combined g system (combined g system a b) c) :=
      (bind_result?_left_iff hs).mpr ⟨_, ha ▸ hfamily, hb ▸ hfamily, hc ▸ hfamily, rfl⟩
    rw [h] at hleft
    obtain ⟨-, -, -, -, hsame⟩ := (bind_result?_right_iff hs).mp hleft
    exact (combined_addresses_assoc_iff hs ha hb hc).mp hsame
  · intro h
    ext tag
    rw [bind_result?_left_iff hs, bind_result?_right_iff hs]
    refine exists_congr fun family => and_congr_right fun ha => and_congr_right fun hb =>
      and_congr_right fun hc => ?_
    have hassoc : combined g system (combined g system a b) c =
        combined g system a (combined g system b c) := by
      by_cases haddresses : a.stackClass g = .address ∧ b.stackClass g = .address ∧ c.stackClass g = .address
      · obtain ⟨ha', hb', hc'⟩ := haddresses
        refine (combined_addresses_assoc_iff hs ha' hb' hc').mpr (h ?_ ha' hb' hc')
        rw [ha'] at ha
        cases addresses with
        | true => rfl
        | false => cases ha
      · exact combined_assoc hs ha hb hc haddresses
    rw [hassoc]

end PairRule

/-! ## § Expressions -/

/-- How operands are pushed and grouped. -/
inductive Expression
  | operand (tag : TypeTag)
  | operation (left right : Expression)

namespace Expression

open PairRule (arithmetic)

/-- The operands, in the order in which they are pushed. -/
def operands : Expression → List TypeTag
  | .operand tag => [tag]
  | .operation left right => left.operands ++ right.operands

variable (g : TypeGraph) (system : SystemTypes) (rule : PairRule)

/-- The slots after the code of the expression: an operation follows its operands. -/
def run : Expression → List TypeTag → Except VerifierFault (List TypeTag)
  | .operand tag, slots => .ok (tag :: slots)
  | .operation left right, slots => do
    let pushed ← left.run slots
    (StackEffect.binary rule [.arithmetic]).apply g system (← right.run pushed)

/-- The type of two expressions that are combined, if both have one. -/
def combine (x y : Option TypeTag) : Option TypeTag :=
  x.bind fun a => y.bind fun b => rule.result? g system a b

/-- The type of the expression, if all operations in it have a result. -/
def type? : Expression → Option TypeTag
  | .operand tag => some tag
  | .operation left right => combine g system rule left.type? right.type?

/-- The type of the operands so far with one more; there is none before the first operand. -/
def accumulate (sofar : Option (Option TypeTag)) (tag : TypeTag) : Option (Option TypeTag) :=
  match sofar with
  | none => some (some tag)
  | some x => some (combine g system rule x (some tag))

variable {g : TypeGraph} {system : SystemTypes} {rule : PairRule} {addresses floats : Bool}

/-- **`toOption_run`** — the code leaves the type of the expression on top of the stack. -/
theorem toOption_run (e : Expression) (slots : List TypeTag) :
    (e.run g system rule slots).toOption = (e.type? g system rule).map (· :: slots) := by
  induction e generalizing slots with
  | operand tag => rfl
  | operation left right ihl ihr =>
    rw [run, Except.toOption_bind, ihl, type?, combine]
    cases left.type? g system rule with
    | none => rfl
    | some a =>
      rw [Option.map_some, Option.bind_some, Option.bind_some, Except.toOption_bind, ihr]
      cases right.type? g system rule with
      | none => rfl
      | some b =>
        rw [Option.map_some, Option.bind_some, Option.bind_some]
        ext out
        rw [Option.map_eq_some_iff, Except.toOption_eq_some_iff, StackEffect.apply_binary_iff]
        constructor
        · rintro ⟨right, left, rest, tag, heq, htag, rfl⟩
          cases heq
          exact ⟨tag, htag, rfl⟩
        · rintro ⟨tag, htag, rfl⟩
          exact ⟨b, a, slots, tag, rfl, htag, rfl⟩

theorem combine_comm (x y : Option TypeTag) :
    combine g system (arithmetic addresses floats) x y =
      combine g system (arithmetic addresses floats) y x := by
  cases x with
  | none => cases y <;> rfl
  | some a =>
    cases y with
    | none => rfl
    | some b => exact PairRule.result?_comm a b

theorem combine_assoc (hs : system.Classified g) (x y z : Option TypeTag) :
    combine g system (arithmetic false floats) (combine g system (arithmetic false floats) x y) z =
      combine g system (arithmetic false floats) x (combine g system (arithmetic false floats) y z) := by
  cases x with
  | none => rfl
  | some a =>
    cases y with
    | none => rfl
    | some b =>
      cases z with
      | none =>
        show (((arithmetic false floats).result? g system a b).bind fun _ => none) = none
        exact Option.bind_fun_none _
      | some c => exact (PairRule.assoc_iff hs a b c).mpr nofun

/-- The order of two operands that are added does not matter. -/
theorem accumulate_right_comm (hs : system.Classified g) :
    RightCommutative (accumulate g system (arithmetic false floats)) where
  right_comm sofar a b := by
    cases sofar with
    | none => exact congrArg some (combine_comm _ _)
    | some x =>
      show some (combine g system _ (combine g system _ x (some a)) (some b)) =
        some (combine g system _ (combine g system _ x (some b)) (some a))
      rw [combine_assoc hs, combine_assoc hs, combine_comm (some a)]

/-- Taking the operands of an expression one by one comes to its type. -/
theorem foldl_operands (hs : system.Classified g) (e : Expression) (sofar : Option (Option TypeTag)) :
    e.operands.foldl (accumulate g system (arithmetic false floats)) sofar =
      some (match sofar with
        | none => e.type? g system (arithmetic false floats)
        | some x =>
          combine g system (arithmetic false floats) x (e.type? g system (arithmetic false floats))) := by
  induction e generalizing sofar with
  | operand tag => cases sofar <;> rfl
  | operation left right ihl ihr =>
    rw [operands, List.foldl_append, ihl, ihr]
    cases sofar with
    | none => rfl
    | some x => exact congrArg some (combine_assoc hs _ _ _)

/-- **`type?_perm`** — expressions over the same operands have the same type. -/
theorem type?_perm (hs : system.Classified g) {e e' : Expression} (h : e.operands.Perm e'.operands) :
    e.type? g system (arithmetic false floats) = e'.type? g system (arithmetic false floats) := by
  have : RightCommutative (accumulate g system (arithmetic false floats)) := accumulate_right_comm hs
  have hfold := h.foldl_eq (f := accumulate g system (arithmetic false floats)) none
  rw [foldl_operands hs, foldl_operands hs] at hfold
  exact Option.some.inj hfold

/-- **`order_and_grouping`** — where the system types came first, whatever was added to the graph since: two
operands come to the same in either order, three come to the same however they are grouped, and so the code of
an expression without addresses leaves what its operands alone determine. -/
theorem order_and_grouping {edges : Bool} {g : TypeGraph}
    (h : TypeGraph.Evolves edges TypeGraph.empty.addSystemTypes.2 g) (floats : Bool) :
    (∀ addresses a b,
      ((arithmetic addresses floats).result g TypeGraph.empty.addSystemTypes.1 a b).toOption =
        ((arithmetic addresses floats).result g TypeGraph.empty.addSystemTypes.1 b a).toOption) ∧
    (∀ a b c,
      ((arithmetic false floats).result g TypeGraph.empty.addSystemTypes.1 a b >>= fun t =>
          (arithmetic false floats).result g TypeGraph.empty.addSystemTypes.1 t c).toOption =
        ((arithmetic false floats).result g TypeGraph.empty.addSystemTypes.1 b c >>= fun t =>
          (arithmetic false floats).result g TypeGraph.empty.addSystemTypes.1 a t).toOption) ∧
    ∀ (e e' : Expression) (slots : List TypeTag), e.operands.Perm e'.operands →
      (e.run g TypeGraph.empty.addSystemTypes.1 (arithmetic false floats) slots).toOption =
        (e'.run g TypeGraph.empty.addSystemTypes.1 (arithmetic false floats) slots).toOption := by
  have hs : TypeGraph.empty.addSystemTypes.1.Classified g := SystemTypes.classified_of_evolves h
  refine ⟨fun addresses a b => ?_, fun a b c => ?_, fun e e' slots hperm => ?_⟩
  · rw [PairRule.toOption_result, PairRule.toOption_result, PairRule.result?_comm]
  · simp only [Except.toOption_bind, PairRule.toOption_result]
    exact (PairRule.assoc_iff hs a b c).mpr nofun
  · rw [toOption_run, toOption_run, type?_perm hs hperm]

end Expression

namespace Enumerations

open TypeGraph Expression PairRule
open SystemOnly (system)

/-- Two enumerations over unsigned primitives of different widths. -/
def shade : TypeId × TypeGraph := SystemOnly.graph.addEnum "Shade" system.enumType .u8
def mask : TypeId × TypeGraph := shade.2.addEnum "Mask" system.enumType .u32

theorem mask_evolves : Evolves false SystemOnly.graph mask.2 := by
  have hbase : SystemOnly.graph.Knows system.enumType ∧ shade.2.Knows system.enumType := by
    decide +kernel
  refine .tail (.tail .refl (.addType _ _ ?_ ?_)) (.addType _ _ ?_ ?_)
  · rintro _ ⟨⟩
    exact hbase.1
  · exact fun _ => nofun
  · rintro _ ⟨⟩
    exact hbase.2
  · exact fun _ => nofun

/-- The two enumerations come to a signed integer, and with a native one to the native one. -/
theorem order_and_grouping_enumerations :
    Evolves false TypeGraph.empty.addSystemTypes.2 mask.2 ∧
      ((arithmetic true true).result mask.2 system (.value mask.1) (.value shade.1)).toOption =
        some (.value system.int32) ∧
      ((arithmetic false true).result mask.2 system (.value mask.1) (.value system.uintptr) >>= fun t =>
        (arithmetic false true).result mask.2 system (.value shade.1) t).toOption =
        some (.value system.uintptr) ∧
      ((Expression.operation (.operand (.value system.uintptr))
          (.operation (.operand (.value mask.1)) (.operand (.value shade.1)))).run mask.2 system
        (arithmetic false true) [.null]).toOption = some [.value system.uintptr, .null] := by
  have hleft : ((arithmetic true true).result mask.2 system (.value shade.1) (.value mask.1)).toOption =
        some (.value system.int32) ∧
      ((arithmetic false true).result mask.2 system (.value shade.1) (.value mask.1) >>= fun t =>
        (arithmetic false true).result mask.2 system t (.value system.uintptr)).toOption =
        some (.value system.uintptr) ∧
      ((Expression.operation (.operation (.operand (.value shade.1)) (.operand (.value mask.1)))
          (.operand (.value system.uintptr))).run mask.2 system (arithmetic false true) [.null]).toOption =
        some [.value system.uintptr, .null] := by
    decide +kernel
  obtain ⟨hcomm, hassoc, hperm⟩ := order_and_grouping mask_evolves true
  refine ⟨mask_evolves, (hcomm true _ _).trans hleft.1, (hassoc _ _ _).symm.trans hleft.2.1,
    (hperm _ _ _ ?_).trans hleft.2.2⟩
  exact List.reverse_perm [TypeTag.value shade.1, .value mask.1, .value system.uintptr]

end Enumerations

end ManagedCode
