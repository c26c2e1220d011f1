/-
# ManagedCode.Body.Registry — finite maps that a layout keeps its books in.

A registry is a list of bindings, latest first: a new binding hides the older ones of its key, and removal
drops them all.
-/

namespace ManagedCode.Body

/-- Bindings of keys to values, latest first. -/
structure Registry (κ ν : Type) where
  bindings : List (κ × ν) := []
  deriving DecidableEq, Inhabited

namespace Registry

variable {κ ν : Type}

/-- No key is bound. -/
def empty : Registry κ ν := {}

/-- The key bound latest. -/
def latest? (r : Registry κ ν) : Option κ := r.bindings.head?.map Prod.fst

variable [DecidableEq κ]

/-- The value of a key. -/
def find? (r : Registry κ ν) (k : κ) : Option ν :=
  (r.bindings.find? fun b => b.1 == k).map Prod.snd

/-- Binds a key, hiding what it was bound to. -/
def insert (r : Registry κ ν) (k : κ) (v : ν) : Registry κ ν := { bindings := (k, v) :: r.bindings }

/-- Unbinds a key. -/
def erase (r : Registry κ ν) (k : κ) : Registry κ ν :=
  { bindings := r.bindings.filter fun b => b.1 != k }

@[simp] theorem find?_empty (k : κ) : (empty : Registry κ ν).find? k = none := rfl

@[simp] theorem find?_insert_self (r : Registry κ ν) (k : κ) (v : ν) :
    (r.insert k v).find? k = some v := by
  simp [insert, find?]

theorem find?_insert_of_ne (r : Registry κ ν) {k k' : κ} (v : ν) (h : k ≠ k') :
    (r.insert k v).find? k' = r.find? k' := by
  simp [insert, find?, h]

@[simp] theorem find?_erase_self (r : Registry κ ν) (k : κ) : (r.erase k).find? k = none := by
  simp [erase, find?]

theorem find?_erase_of_ne (r : Registry κ ν) {k k' : κ} (h : k ≠ k') :
    (r.erase k).find? k' = r.find? k' := by
  simp only [erase, find?, List.find?_filter]
  congr 2
  funext b
  by_cases hb : b.1 = k'
  · simp [hb, Ne.symm h]
  · simp [hb]

end Registry

end ManagedCode.Body
