/-
Computations that may fail, what they give when they do not, and relations between computations.

* `bind_eq_ok`, `bind_eq_error` — a sequence succeeds exactly when both of its parts do.
* `foldlM_append_eq_ok`, `foldlM_eq_error` — so does a run over two lists, and one that fails does so at
  one member.
* `mapError_eq_ok`, `mapError_eq_error` — another error changes no value.
* `map_of_mapM_eq_ok` — a list is mapped to the values of its members.
* `failure?` — the error of a computation that fails.
* `toOption_bind` — the value of a sequence, whatever the errors are.
* `Compatible` — a relation between computations that is kept by sequences, and then by runs over
  lists too.
-/

namespace Reckoner

variable {ε α β γ : Type}

theorem bind_eq_ok {x : Except ε α} {f : α → Except ε β} {b : β} :
    (x >>= f) = .ok b ↔ ∃ a, x = .ok a ∧ f a = .ok b := by
  cases x with
  | error error =>
    constructor
    · rintro ⟨⟩
    · rintro ⟨_, ⟨⟩, _⟩
  | ok a =>
    constructor
    · intro rest
      exact ⟨a, rfl, rest⟩
    · rintro ⟨_, ⟨⟩, rest⟩
      exact rest

theorem bind_eq_error {x : Except ε α} {f : α → Except ε β} {error : ε} :
    (x >>= f) = .error error ↔ x = .error error ∨ ∃ a, x = .ok a ∧ f a = .error error := by
  cases x with
  | error other =>
    constructor
    · rintro ⟨⟩
      exact .inl rfl
    · rintro (⟨⟨⟩⟩ | ⟨_, ⟨⟩, _⟩)
      rfl
  | ok a =>
    constructor
    · intro rest
      exact .inr ⟨a, rfl, rest⟩
    · rintro (⟨⟨⟩⟩ | ⟨_, ⟨⟩, rest⟩)
      exact rest

/-- A run over a list fails at one of its members, in the state after those in front of it. -/
theorem foldlM_eq_error {step : β → α → Except ε β} {list : List α} {start : β} {error : ε}
    (failed : list.foldlM step start = .error error) :
    ∃ front a back state, list = front ++ a :: back ∧ front.foldlM step start = .ok state ∧
      step state a = .error error := by
  induction list generalizing start with
  | nil => cases failed
  | cons a rest ih =>
    rw [List.foldlM_cons, bind_eq_error] at failed
    rcases failed with here | ⟨between, first, later⟩
    · exact ⟨[], a, rest, start, rfl, rfl, here⟩
    · obtain ⟨front, b, back, state, rfl, walked, found⟩ := ih later
      refine ⟨a :: front, b, back, state, rfl, ?_, found⟩
      rw [List.foldlM_cons, bind_eq_ok]
      exact ⟨between, first, walked⟩

theorem foldlM_append_eq_ok {step : β → α → Except ε β} {first second : List α} {start stop : β} :
    (first ++ second).foldlM step start = .ok stop ↔
      ∃ between, first.foldlM step start = .ok between ∧
        second.foldlM step between = .ok stop := by
  rw [List.foldlM_append, bind_eq_ok]

theorem foldlM_cons_eq_ok {step : β → α → Except ε β} {a : α} {rest : List α} {start stop : β} :
    (a :: rest).foldlM step start = .ok stop ↔
      ∃ between, step start a = .ok between ∧ rest.foldlM step between = .ok stop := by
  rw [List.foldlM_cons, bind_eq_ok]

/-- A list is mapped to the values of its members. -/
theorem map_of_mapM_eq_ok {f : α → Except ε β} {list : List α} {results : List β}
    (mapped : list.mapM f = .ok results) : list.map f = results.map .ok := by
  induction list generalizing results with
  | nil =>
    cases mapped
    rfl
  | cons first rest ih =>
    rw [List.mapM_cons, bind_eq_ok] at mapped
    obtain ⟨b, ofFirst, others⟩ := mapped
    rw [bind_eq_ok] at others
    obtain ⟨images, ofRest, ⟨⟩⟩ := others
    rw [List.map_cons, List.map_cons, ofFirst, ih ofRest]

theorem exists_of_mapM_eq_ok {f : α → Except ε β} {list : List α} {results : List β}
    (mapped : list.mapM f = .ok results) {a : α} (member : a ∈ list) :
    ∃ b ∈ results, f a = .ok b := by
  have image := List.mem_map_of_mem (f := f) member
  rw [map_of_mapM_eq_ok mapped] at image
  obtain ⟨b, listed, found⟩ := List.mem_map.mp image
  exact ⟨b, listed, found.symm⟩

/-- What a list is mapped to comes from its members. -/
theorem exists_of_mem_mapM {f : α → Except ε β} {list : List α} {results : List β}
    (mapped : list.mapM f = .ok results) {b : β} (member : b ∈ results) :
    ∃ a ∈ list, f a = .ok b := by
  have image := List.mem_map_of_mem (f := Except.ok (ε := ε)) member
  rw [← map_of_mapM_eq_ok mapped] at image
  exact List.mem_map.mp image

/-- A list that cannot be mapped has a member that cannot. -/
theorem exists_of_mapM_eq_error {f : α → Except ε β} {list : List α} {error : ε}
    (failed : list.mapM f = .error error) : ∃ a ∈ list, f a = .error error := by
  induction list with
  | nil => cases failed
  | cons first rest ih =>
    rw [List.mapM_cons, bind_eq_error] at failed
    rcases failed with here | ⟨b, -, later⟩
    · exact ⟨first, List.mem_cons_self, here⟩
    · rcases bind_eq_error.mp later with ofRest | ⟨images, -, ⟨⟩⟩
      obtain ⟨a, member, found⟩ := ih ofRest
      exact ⟨a, List.mem_cons_of_mem _ member, found⟩

theorem mapError_eq_ok {ε' : Type} {f : ε → ε'} {x : Except ε α} {a : α} :
    x.mapError f = .ok a ↔ x = .ok a := by
  cases x with
  | error error => exact iff_of_false nofun nofun
  | ok b => exact ⟨by rintro ⟨⟩; rfl, by rintro ⟨⟩; rfl⟩

theorem mapError_eq_error {ε' : Type} {f : ε → ε'} {x : Except ε α} {error : ε'}
    (failed : x.mapError f = .error error) : ∃ cause, error = f cause := by
  cases x with
  | error cause =>
    cases failed
    exact ⟨cause, rfl⟩
  | ok a => cases failed

theorem toOption_eq_some {x : Except ε α} {a : α} : x.toOption = some a ↔ x = .ok a := by
  cases x with
  | error error => exact iff_of_false nofun nofun
  | ok b => exact ⟨fun equal => congrArg _ (Option.some.inj equal), by rintro ⟨⟩; rfl⟩

/-- The error of a computation; none if it succeeds. -/
def failure? : Except ε α → Option ε
  | .error error => some error
  | .ok _ => none

theorem failure?_eq_some {x : Except ε α} {error : ε} :
    failure? x = some error ↔ x = .error error := by
  cases x with
  | error other => exact ⟨fun equal => congrArg _ (Option.some.inj equal), by rintro ⟨⟩; rfl⟩
  | ok a => exact iff_of_false nofun nofun

theorem toOption_bind (x : Except ε α) (f : α → Except ε β) :
    (x >>= f).toOption = x.toOption.bind fun a => (f a).toOption := by
  cases x <;> rfl

/-! ### Relations between computations -/

/-- Whether a relation between the computations of two monads holds of the same value twice, and of
two sequences if it holds of their parts. -/
structure Compatible {m n : Type → Type} [Monad m] [Monad n]
    (related : ∀ α : Type, m α → n α → Prop) : Prop where
  value {α : Type} (a : α) : related α (pure a) (pure a)
  sequence {α β : Type} {x : m α} {y : n α} {f : α → m β} {g : α → n β} (first : related α x y)
    (rest : ∀ a, related β (f a) (g a)) : related β (x >>= f) (y >>= g)

namespace Compatible

variable {m n : Type → Type} [Monad m] [Monad n] {related : ∀ α : Type, m α → n α → Prop}
  {α β : Type}

theorem foldlM (compatible : Compatible related) {f : β → α → m β} {g : β → α → n β}
    {list : List α} (each : ∀ b, ∀ a ∈ list, related β (f b a) (g b a)) (start : β) :
    related β (list.foldlM f start) (list.foldlM g start) := by
  induction list generalizing start with
  | nil => exact compatible.value start
  | cons a rest ih =>
    rw [List.foldlM_cons, List.foldlM_cons]
    exact compatible.sequence (each start a List.mem_cons_self)
      (ih fun b a member => each b a (List.mem_cons_of_mem _ member))

variable [LawfulMonad m] [LawfulMonad n]

theorem map (compatible : Compatible related) (h : α → β) {x : m α} {y : n α}
    (holds : related α x y) : related β (h <$> x) (h <$> y) := by
  rw [map_eq_pure_bind, map_eq_pure_bind]
  exact compatible.sequence holds fun a => compatible.value (h a)

theorem mapM (compatible : Compatible related) {f : α → m β} {g : α → n β} {list : List α}
    (each : ∀ a ∈ list, related β (f a) (g a)) :
    related (List β) (list.mapM f) (list.mapM g) := by
  induction list with
  | nil => exact compatible.value []
  | cons a rest ih =>
    obtain ⟨here, later⟩ := List.forall_mem_cons.mp each
    rw [List.mapM_cons, List.mapM_cons]
    exact compatible.sequence here fun b =>
      compatible.sequence (ih later) fun bs => compatible.value (b :: bs)

end Compatible

end Reckoner
