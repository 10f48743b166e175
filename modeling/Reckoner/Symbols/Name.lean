/-
Names that can be written in an expression.

* `isValidName` — a letter or an underscore, then letters, underscores and digits.
* `DefinitionError` — why a definition is refused, with the wording.
* `nameFault?`, `argumentFault?` — the first thing wrong with a name or with a list of argument
  names.
-/

import Reckoner.Expression.Token

namespace Reckoner

/-- Whether a text can stand for a symbol in an expression. -/
def isValidName (name : String) : Bool :=
  match name.toList with
  | first :: rest => isNameStart first && rest.all isNameChar
  | [] => false

/-- Why a definition is refused. -/
inductive DefinitionError where
  | emptyName
  | invalidName (name : String)
  | duplicateArgument (name : String)
deriving DecidableEq

/-- The message for a refused definition. -/
def DefinitionError.message : DefinitionError → String
  | emptyName => "symbol names must not be empty"
  | invalidName name =>
    s!"'{name}' is not a valid name (use letters, digits and '_', not starting with a digit)"
  | duplicateArgument name => s!"argument '{name}' is declared more than once"

/-- What is wrong with a name. -/
def nameFault? (name : String) : Option DefinitionError :=
  if name.isEmpty then some .emptyName
  else if isValidName name then none
  else some (.invalidName name)

/-- The first thing wrong with a list of argument names that follows the names `seen`. -/
def argumentFault? (seen : List String) : List String → Option DefinitionError
  | [] => none
  | name :: rest =>
    match nameFault? name with
    | some fault => some fault
    | none =>
      if name ∈ seen then some (.duplicateArgument name) else argumentFault? (name :: seen) rest

/-- Nothing is wrong with exactly the valid names. -/
theorem nameFault?_eq_none_iff {name : String} : nameFault? name = none ↔ isValidName name := by
  unfold nameFault?
  split
  · rename_i empty
    have := String.isEmpty_iff.mp empty
    subst this
    simp [isValidName]
  · split <;> simp_all

/-- Nothing is wrong with exactly the lists of new, valid and distinct names. -/
theorem argumentFault?_eq_none_iff {seen names : List String} :
    argumentFault? seen names = none ↔
      names.Nodup ∧ ∀ name ∈ names, isValidName name ∧ name ∉ seen := by
  induction names generalizing seen with
  | nil => simp [argumentFault?]
  | cons name rest ih =>
    rw [argumentFault?]
    split
    · rename_i fault found
      have invalid : ¬isValidName name := fun valid => by
        rw [nameFault?_eq_none_iff.mpr valid] at found
        cases found
      simp only [reduceCtorEq, List.mem_cons, forall_eq_or_imp, false_iff]
      exact fun ⟨_, ⟨valid, _⟩, _⟩ => invalid valid
    · rename_i found
      have valid := nameFault?_eq_none_iff.mp found
      split
      · rename_i again
        simp only [reduceCtorEq, List.mem_cons, forall_eq_or_imp, false_iff]
        exact fun ⟨_, ⟨_, fresh⟩, _⟩ => fresh again
      · rename_i fresh
        rw [ih, List.nodup_cons]
        constructor
        · rintro ⟨nodup, all⟩
          refine ⟨⟨fun member => (all name member).2 (List.mem_cons_self ..), nodup⟩, ?_⟩
          intro other member
          rcases List.mem_cons.mp member with rfl | member
          · exact ⟨valid, fresh⟩
          · exact ⟨(all other member).1, fun h => (all other member).2 (List.mem_cons_of_mem _ h)⟩
        · rintro ⟨⟨notRest, nodup⟩, all⟩
          refine ⟨nodup, fun other member => ?_⟩
          have h := all other (List.mem_cons_of_mem _ member)
          refine ⟨h.1, fun h' => ?_⟩
          rcases List.mem_cons.mp h' with rfl | h'
          · exact notRest member
          · exact h.2 h'

end Reckoner
