/-
What the addons of a session keep, whatever the session is asked to do.

* `Session.Request`, `Session.serve` — what a session can be asked to do, and the session
  afterwards.
* `Session.Reachable` — the sessions that requests lead to from the start.
* `Session.Reachable.sharing` — **the lists of the active addons hold what they bring**, whatever
  the user did to the table.
* `Session.Tended.lone` — no entry gets a second owner unless a function of an active addon is
  removed first.
* `Session.setActive_keeps` — **an entry with at most one owner stays in the table while an addon
  that brings it stays active**; one with two owners can be lost (`Session.setActive_loses`).
-/

import Reckoner.Proofs.Addon.Succession
import Reckoner.Proofs.Evaluation.Writes
import Reckoner.Proofs.Outcome
import Reckoner.Session.Basic

namespace Reckoner

namespace Session

variable {σ : Type} {source : AddonSource σ} {offer : String → Contribution}
  {session : Session σ}

/-! ### Requests -/

/-- What a session can be asked to do with its symbols. -/
inductive Request where
  | evaluate (text : String)
  | define (name : String) (arguments : List String) (expression : String)
  | undefine (name : String)
  | setActive (requested : NameSet)
  | importTable (text : String)

/-- The session after a request. One that is refused leaves it as it was. -/
def serve (source : AddonSource σ) (session : Session σ) : Request → Session σ
  | .evaluate text => (session.evaluate text).2
  | .define name arguments expression =>
    match session.define name arguments expression with
    | .ok after => after
    | .error _ => session
  | .undefine name => (session.undefine? name).getD session
  | .setActive requested => (session.setActive source requested).2
  | .importTable text =>
    match session.importTable source text with
    | .ok (_, after) => after
    | .error _ => session

/-- The sessions that requests lead to from the start. -/
inductive Reachable (source : AddonSource σ) : Session σ → Prop where
  | start (settings : Settings) (state : σ) : Reachable source (.start settings state)
  | serve {session : Session σ} (reachable : Reachable source session) (request : Request) :
      Reachable source (session.serve source request)

/-! ### What requests do -/

/-- **A definition leaves the active addons alone and adds a function to the table.** -/
theorem define_eq_ok {name : String} {arguments : List String} {expression : String}
    {after : Session σ} (defined : session.define name arguments expression = .ok after) :
    ∃ function, after = { session with table := session.table.insert name (.function function) } := by
  have added {function : Except SessionError UserFunction}
      (result : (function >>= fun f => pure { session with
        table := session.table.insert name (.function f) }) = Except.ok after) :
      ∃ f, after = { session with table := session.table.insert name (.function f) } := by
    obtain ⟨f, _, ⟨⟩⟩ := bind_eq_ok.mp result
    exact ⟨f, rfl⟩
  unfold define at defined
  simp only at defined
  split at defined
  · split at defined
    · cases defined
    · exact added defined
  · exact added defined

/-- **A name is removed from the table, or nothing happens.** -/
theorem serve_undefine (source : AddonSource σ) (session : Session σ) (name : String) :
    session.serve source (.undefine name) = session ∨
      session.serve source (.undefine name) =
        { session with table := session.table.erase name } := by
  show (session.undefine? name).getD session = _ ∨ (session.undefine? name).getD session = _
  unfold undefine?
  split
  · exact .inr rfl
  · exact .inr rfl
  · exact .inl rfl

/-- **An import deactivates all addons with the old table and activates them with the new one.** -/
theorem importTable_eq_ok {text : String} {failures : List AddonFailure} {after : Session σ}
    (imported : session.importTable source text = .ok (failures, after)) :
    ∃ table, after = (setActive { (session.setActive source ∅).2 with table } source
      session.activeSet).2 := by
  unfold importTable at imported
  obtain ⟨table, _, result⟩ := bind_eq_ok.mp imported
  cases result
  exact ⟨table, rfl⟩

/-- A request other than for addons and imports leaves the active addons alone. -/
theorem serve_cases (source : AddonSource σ) (session : Session σ) (request : Request) :
    (session.serve source request).active = session.active ∨
    (∃ requested, session.serve source request = (session.setActive source requested).2) ∨
    ∃ table, session.serve source request =
      (setActive { (session.setActive source ∅).2 with table } source session.activeSet).2 := by
  cases request with
  | evaluate text => exact .inl rfl
  | define name arguments expression =>
    left
    unfold serve
    simp only
    split
    · rename_i after defined
      obtain ⟨_, rfl⟩ := define_eq_ok defined
      rfl
    · rfl
  | undefine name =>
    left
    rcases serve_undefine source session name with same | erased
    · rw [same]
    · rw [erased]
  | setActive requested => exact .inr (.inl ⟨requested, rfl⟩)
  | importTable text =>
    unfold serve
    simp only
    split
    · rename_i failures after imported
      exact .inr (.inr (importTable_eq_ok imported))
    · exact .inl rfl

/-! ### Addons of reachable sessions -/

/-- **Every request leaves the lists of the active addons with what they bring.** -/
theorem sharing_serve (steady : source.Steady offer) (sharing : Sharing offer session.active)
    (request : Request) : Sharing offer (session.serve source request).active := by
  rcases serve_cases source session request with same | ⟨requested, result⟩ | ⟨table, result⟩
  · rw [same]
    exact sharing
  · rw [result]
    exact sharing.setActive steady requested
  · rw [result]
    have cleared : Sharing offer (session.toWorkspace.setActive source ∅).2.active :=
      sharing.setActive steady ∅
    exact Sharing.setActive (w := { (session.setActive source ∅).2.toWorkspace with table }) steady
      cleared session.activeSet

theorem Reachable.sharing (steady : source.Steady offer) (reachable : Reachable source session) :
    Sharing offer session.active := by
  induction reachable with
  | start settings state => exact .of_inactive fun _ => Std.ExtTreeMap.not_mem_empty
  | serve _ request ih => exact sharing_serve steady ih request

/-! ### Sessions without stale owners -/

/-- The sessions that requests lead to if none of them removes a function or variable that an active
addon owns. -/
inductive Tended (source : AddonSource σ) : Session σ → Prop where
  | start (settings : Settings) (state : σ) : Tended source (.start settings state)
  | serve {session : Session σ} (tended : Tended source session) (request : Request)
      (unowned : ∀ name, request = .undefine name → ∀ addon, ¬ Owns session.active addon name) :
      Tended source (session.serve source request)

theorem Tended.reachable (tended : Tended source session) : Reachable source session := by
  induction tended with
  | start settings state => exact .start settings state
  | serve _ request _ ih => exact ih.serve request

/-- An evaluation takes no name out of the table. -/
theorem getElem?_evaluate {text name : String} (some : session.table[name]? ≠ none) :
    (session.evaluate text).2.table[name]? ≠ none := by
  show (Reckoner.evaluate text session.table session.scripts session.options).2[name]? ≠ none
  rcases evaluated : Reckoner.evaluate text session.table session.scripts session.options with
    ⟨error | value, after⟩
  · rwa [evaluate_eq_error evaluated]
  · obtain ⟨_, state, _, _, rfl⟩ := evaluate_eq_ok.mp evaluated
    rw [EvalState.getElem?_commit, ne_eq, Option.or_eq_none_iff, not_and]
    exact fun _ => some

/-- **Every request but the removal of an owned name leaves every name with one owner at most.** -/
theorem rooted_serve (steady : source.Steady offer) (sharing : Sharing offer session.active)
    (rooted : Rooted session.table session.active []) {request : Request}
    (unowned : ∀ name, request = .undefine name → ∀ addon, ¬ Owns session.active addon name) :
    Rooted (session.serve source request).table (session.serve source request).active [] := by
  cases request with
  | evaluate text =>
    exact ⟨fun addon name owns => getElem?_evaluate (rooted.present addon name owns), rooted.lone⟩
  | define name arguments expression =>
    unfold serve
    simp only
    split
    · rename_i after defined
      obtain ⟨function, rfl⟩ := define_eq_ok defined
      refine ⟨fun addon other owns => ?_, rooted.lone⟩
      show (session.table.insert name (.function function))[other]? ≠ none
      rw [NameMap.getElem?_insert]
      split
      · exact Option.some_ne_none _
      · exact rooted.present addon other owns
    · exact rooted
  | undefine name =>
    rcases serve_undefine source session name with same | erased
    · rwa [same]
    · rw [erased]
      refine ⟨fun addon other owns => ?_, rooted.lone⟩
      show (session.table.erase name)[other]? ≠ none
      rw [NameMap.getElem?_erase, if_neg]
      · exact rooted.present addon other owns
      · rintro rfl
        exact unowned name rfl addon owns
  | setActive requested => exact rooted.setActive steady sharing requested
  | importTable text =>
    unfold serve
    simp only
    split
    · rename_i failures after imported
      obtain ⟨table, rfl⟩ := importTable_eq_ok imported
      have cleared : Sharing offer (session.toWorkspace.setActive source ∅).2.active :=
        sharing.setActive steady ∅
      exact Rooted.setActive (w := { (session.setActive source ∅).2.toWorkspace with table }) steady
        cleared (.of_inactive fun _ => Workspace.not_mem_setActive_empty) session.activeSet
    · exact rooted

theorem Tended.rooted (steady : source.Steady offer) (tended : Tended source session) :
    Rooted session.table session.active [] := by
  induction tended with
  | start settings state => exact .of_inactive fun _ => Std.ExtTreeMap.not_mem_empty
  | serve tended request unowned ih =>
    exact rooted_serve steady (tended.reachable.sharing steady) ih unowned

/-- In such a session no two active addons own an entry of one name. -/
theorem Tended.lone (steady : source.Steady offer) (tended : Tended source session)
    (symbol : Symbol) (name : String) : Lone (·.same symbol) session.active name [] :=
  ((tended.rooted steady).lone name).mono fun _ _ => trivial

/-! ### What another addon provides -/

/-- **Deactivating addons takes away nothing that another one provides**, in any session that
requests lead to. An addon that brings an entry stays active; the table holds the entry; and at most
one active addon owns an entry like it. Then the table still has the entry as it was. -/
theorem setActive_keeps (steady : source.Steady offer) (reachable : Reachable source session)
    {requested : NameSet} {addon name : String} {symbol : Symbol} (isActive : addon ∈ session.active)
    (stays : addon ∈ requested) (brings : (offer addon).Brings name symbol)
    (held : session.table.holds name symbol)
    (single : ∀ first second, OwnsLike (·.same symbol) session.active first name →
      OwnsLike (·.same symbol) session.active second name → first = second) :
    (session.setActive source requested).2.table[name]? = session.table[name]? := by
  have upheld : Upheld offer addon name symbol session.table session.active [] :=
    ⟨reachable.sharing steady, isActive, held, ⟨single, nofun, List.nodup_nil⟩⟩
  exact Workspace.getElem?_setActive (w := session.toWorkspace) steady upheld brings stays

/-- What each of two addons brings. -/
def increment : Contribution := ⟨[("f", .function ⟨["x"], "x + 1", by decide⟩)], []⟩

/-- A source of two addons that bring the same. -/
def twins : AddonSource Unit where
  discover _ := .ok (.ofList ["a", "b"] compare)
  load addon state :=
    (if addon = "a" ∨ addon = "b" then .ok increment else .error (.notFound addon), state)
  unload _ state := (.ok (), state)

theorem twins_steady : twins.Steady fun _ => increment := by
  intro addon state contribution loaded
  simp only [twins] at loaded
  split at loaded
  · cases loaded
    rfl
  · cases loaded

/-- The twin that stays takes over the function of the one that goes. -/
theorem setActive_keeps_twins :
    let session := (start {} ()).serve twins (.setActive (.ofList ["a", "b"] compare))
    session.table["f"]?.isSome ∧
      (session.setActive twins (.ofList ["b"] compare)).2.table["f"]? = session.table["f"]? := by
  have tended : Tended twins
      ((start {} ()).serve twins (.setActive (.ofList ["a", "b"] compare))) :=
    (Tended.start {} ()).serve _ nofun
  have brings : increment.Brings "f" (.function ⟨["x"], "x + 1", by decide⟩) :=
    ⟨_, List.mem_singleton.mpr rfl, rfl, Symbol.same_refl _⟩
  have stays : "b" ∈ (.ofList ["b"] compare : NameSet) := by decide +kernel
  have lone := tended.lone twins_steady (.function ⟨["x"], "x + 1", by decide⟩) "f"
  exact ⟨by decide +kernel, setActive_keeps twins_steady tended.reachable (by decide +kernel) stays
    brings (by decide +kernel) lone.single⟩

/-- An addon whose function the user removed still counts as its owner. When a twin has put the
function back, and the first addon goes away, the function goes with it. -/
theorem setActive_loses : ∃ session : Session Unit, session.Reachable twins ∧
    twins.Steady (fun _ => increment) ∧ "b" ∈ session.active ∧
    increment.Brings "f" (.function ⟨["x"], "x + 1", by decide⟩) ∧
    session.table.holds "f" (.function ⟨["x"], "x + 1", by decide⟩) ∧
    (session.setActive twins (.ofList ["b"] compare)).2.table["f"]?.isNone := by
  have atFirst : Reachable twins (start {} ()) := .start {} ()
  have reachable := ((atFirst.serve (.setActive (.ofList ["a"] compare))).serve (.undefine "f")).serve
    (.setActive (.ofList ["a", "b"] compare))
  refine ⟨_, reachable, twins_steady, by decide +kernel, ⟨_, List.mem_singleton.mpr rfl, rfl,
    Symbol.same_refl _⟩, by decide +kernel, by decide +kernel⟩

end Session

end Reckoner
