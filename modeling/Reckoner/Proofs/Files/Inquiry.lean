/-
What a computation that asks for files depends on.

* `Inquiry.result_bind`, `Inquiry.asked_bind` — of two in a row, the second one asks for its files
  after the first one, and only if that succeeds.
* `Inquiry.result_mapError`, `Inquiry.asked_mapError` — another failure changes nothing else.
* `Inquiry.result_congr` — **trees that agree on what is asked for give the same result**.
-/

import Reckoner.Files.Inquiry

namespace Reckoner

namespace Inquiry

variable {ε ε' α β : Type} {tree : FileTree}

/-- The result of two computations in a row. -/
theorem result_bind (first : Inquiry ε α) (next : α → Inquiry ε β) :
    (first >>= next).result tree = first.result tree >>= fun a => (next a).result tree := by
  induction first with
  | done outcome => cases outcome <;> rfl
  | ask path answered ih => exact ih (tree.read path)

/-- What two computations in a row ask for. -/
theorem asked_bind (first : Inquiry ε α) (next : α → Inquiry ε β) :
    (first >>= next).asked tree = first.asked tree ++
      match first.result tree with
      | .ok a => (next a).asked tree
      | .error _ => [] := by
  induction first with
  | done outcome => cases outcome <;> rfl
  | ask path answered ih => exact congrArg (path :: ·) (ih (tree.read path))

/-- What is done with a result asks for nothing more. -/
theorem asked_bind_pure (first : Inquiry ε α) (f : α → β) :
    (first >>= fun a => pure (f a)).asked tree = first.asked tree := by
  rw [asked_bind]
  cases first.result tree <;> exact List.append_nil _

theorem mem_asked_bind {first : Inquiry ε α} {next : α → Inquiry ε β} {path : List Char} :
    path ∈ (first >>= next).asked tree ↔ path ∈ first.asked tree ∨
      ∃ a, first.result tree = .ok a ∧ path ∈ (next a).asked tree := by
  rw [asked_bind, List.mem_append]
  refine or_congr_right ?_
  cases first.result tree with
  | ok a =>
    constructor
    · exact fun member => ⟨a, rfl, member⟩
    · rintro ⟨_, ⟨⟩, member⟩
      exact member
  | error error =>
    constructor
    · rintro ⟨⟩
    · rintro ⟨_, ⟨⟩, _⟩

theorem result_mapError (f : ε → ε') (inquiry : Inquiry ε α) :
    (inquiry.mapError f).result tree = (inquiry.result tree).mapError f := by
  induction inquiry with
  | done outcome => rfl
  | ask path next ih => exact ih (tree.read path)

theorem asked_mapError (f : ε → ε') (inquiry : Inquiry ε α) :
    (inquiry.mapError f).asked tree = inquiry.asked tree := by
  induction inquiry with
  | done outcome => rfl
  | ask path next ih => exact congrArg (path :: ·) (ih (tree.read path))

/-- **Trees that agree on what is asked for give the same result.** -/
theorem result_congr {other : FileTree} {inquiry : Inquiry ε α}
    (same : ∀ path ∈ inquiry.asked tree, other.read path = tree.read path) :
    inquiry.result other = inquiry.result tree := by
  induction inquiry with
  | done outcome => rfl
  | ask path next ih =>
    obtain ⟨here, later⟩ := List.forall_mem_cons.mp same
    rw [result, result, here]
    exact ih _ later

end Inquiry

end Reckoner
