/-
Reading back the documents of symbol tables.

* `ValueEntry.reads`, `FunctionEntry.reads`, `ScriptRef.reads` — entries.
* `SymbolDocument.run_prettyText` — **a document is read back exactly if its counts fit**.
* `SymbolDocument.getElem?_toTable` — the table of a document holds the symbol of every entry.
-/

import Reckoner.Document.Symbols
import Reckoner.Proofs.Document.Reading
import Reckoner.Proofs.Symbols.Map

namespace Reckoner

open Reader (Reads FieldsRead Countable)

/-! ### Entries -/

/-- The counts of an entry fit into 64 bits. -/
def ValueEntry.Countable (entry : ValueEntry) : Prop :=
  (∀ n ∈ entry.decimals, Reader.Countable n) ∧ ∀ n ∈ entry.bits, Reader.Countable n

instance (entry : ValueEntry) : Decidable entry.Countable := inferInstanceAs (Decidable (_ ∧ _))

theorem ValueEntry.reads (entry : ValueEntry) :
    Reads ValueEntry.reader entry.json entry.Countable entry := by
  obtain ⟨value, decimals, bits⟩ := entry
  cases decimals with
  | none =>
    cases bits with
    | none =>
      refine Reads.congr (Reads.record
        (.field rfl List.not_mem_nil ((Reads.string value).map _)
          (.done rfl))) ?_
      simp [Countable]
    | some bits =>
      refine Reads.congr (Reads.record
        (.field rfl List.not_mem_nil ((Reads.string value).map _)
          (.field rfl (by decide) ((Reads.optionalCount bits).map _)
            (.done rfl)))) ?_
      simp [Countable]
  | some decimals =>
    cases bits with
    | none =>
      refine Reads.congr (Reads.record
        (.field rfl List.not_mem_nil ((Reads.string value).map _)
          (.field rfl (by decide) ((Reads.optionalCount decimals).map _)
            (.done rfl)))) ?_
      simp [Countable]
    | some bits =>
      refine Reads.congr (Reads.record
        (.field rfl List.not_mem_nil ((Reads.string value).map _)
          (.field rfl (by decide) ((Reads.optionalCount decimals).map _)
            (.field rfl (by decide) ((Reads.optionalCount bits).map _)
              (.done rfl))))) ?_
      simp [Countable]

theorem FunctionEntry.reads (entry : FunctionEntry) :
    Reads FunctionEntry.reader entry.json True entry := by
  refine Reads.congr (Reads.record
    (.field rfl List.not_mem_nil ((Reads.string entry.expression).map _)
      (.field rfl (by decide) ((Reads.list Reads.string entry.arguments).map _)
        (.done rfl)))) ?_
  simp

theorem ScriptRef.reads (ref : ScriptRef) :
    Reads ScriptRef.reader ref.json (Reader.Countable ref.arity) ref := by
  refine Reads.congr (Reads.record
    (.field rfl List.not_mem_nil ((Reads.string ref.addon).map _)
      (.field rfl (by decide) ((Reads.string ref.callable).map _)
        (.field rfl (by decide) ((Reads.count ref.arity).map _)
          (.done rfl))))) ?_
  simp

/-! ### Documents -/

/-- A map of values that are read back is read back. -/
theorem NameMap.reads {α : Type} {reader : Reader α} {json : α → Json} {fits : α → Prop}
    (reads : ∀ a, Reads reader (json a) (fits a) a) (map : NameMap α) :
    Reads (NameMap.reader reader) (NameMap.json json map)
      (∀ entry ∈ map.toList, fits entry.2) map := by
  have entries := (Reads.entries reads map.toList).map fun list =>
    (Std.ExtTreeMap.ofList list compare : NameMap α)
  rw [NameMap.ofList_toList] at entries
  exact entries

namespace SymbolDocument

/-- The counts of all entries fit into 64 bits. -/
structure Countable (document : SymbolDocument) : Prop where
  ofVariables : ∀ entry ∈ document.variableEntries.toList, entry.2.Countable
  ofConstants : ∀ entry ∈ document.constantEntries.toList, entry.2.Countable
  ofScripts : ∀ entry ∈ document.scriptEntries.toList, Reader.Countable entry.2.arity

theorem reads (document : SymbolDocument) :
    Reads SymbolDocument.reader document.json document.Countable document := by
  refine Reads.congr (Reads.record
    (.field rfl List.not_mem_nil
      ((NameMap.reads ValueEntry.reads document.variableEntries).map _)
      (.field rfl (by decide)
        ((NameMap.reads ValueEntry.reads document.constantEntries).map _)
        (.field rfl (by decide)
          ((NameMap.reads FunctionEntry.reads document.functionEntries).map _)
          (.field rfl (by decide)
            ((NameMap.reads ScriptRef.reads document.scriptEntries).map _)
            (.done rfl)))))) ?_
  constructor
  · rintro ⟨ofVariables, ofConstants, _, ofScripts, _⟩
    exact ⟨ofVariables, ofConstants, ofScripts⟩
  · rintro ⟨ofVariables, ofConstants, ofScripts⟩
    exact ⟨ofVariables, ofConstants, fun _ _ => trivial, ofScripts, trivial⟩

/-! ### Tables -/

theorem add_eq_ok {table between : SymbolTable} {name : String} {symbol : Symbol} :
    add table (name, symbol) = .ok between ↔
      isValidName name ∧ name ∉ table ∧ between = table.insert name symbol := by
  rw [← nameFault?_eq_none_iff]
  unfold add
  dsimp only
  cases fault : nameFault? name with
  | some fault =>
    refine iff_of_false ?_ ?_
    · rintro ⟨⟩
    · rintro ⟨⟨⟩, _⟩
  | none =>
    by_cases taken : name ∈ table
    · dsimp only
      rw [if_pos taken]
      refine iff_of_false ?_ ?_
      · rintro ⟨⟩
      · rintro ⟨_, free, _⟩
        exact free taken
    · dsimp only
      rw [if_neg taken]
      constructor
      · rintro ⟨⟩
        exact ⟨rfl, taken, rfl⟩
      · rintro ⟨_, _, rfl⟩
        rfl

/-- A symbol that is added to a table gets a name of its own, so none is lost. -/
theorem getElem?_foldlM_add {entries : List (String × Symbol)} {start after : SymbolTable}
    (added : entries.foldlM add start = .ok after) {name : String} {symbol : Symbol} :
    after[name]? = some symbol ↔ (name, symbol) ∈ entries ∨ start[name]? = some symbol := by
  induction entries generalizing start with
  | nil =>
    cases added
    rw [or_iff_right List.not_mem_nil]
  | cons entry rest ih =>
    obtain ⟨new, value⟩ := entry
    obtain ⟨between, first, others⟩ := foldlM_cons_eq_ok.mp added
    obtain ⟨_, free, rfl⟩ := add_eq_ok.mp first
    rw [ih others, NameMap.getElem?_insert, List.mem_cons, Prod.mk.injEq]
    by_cases same : new = name
    · subst same
      have missing : start[new]? = none := Std.ExtTreeMap.getElem?_eq_none free
      rw [if_pos rfl, missing]
      simp only [Option.some.injEq, reduceCtorEq, or_false, true_and]
      rw [or_comm, eq_comm]
    · have other : ¬name = new := fun equal => same equal.symm
      rw [if_neg same]
      simp only [other, false_and, false_or]

/-- The table of a document holds the value of every entry of a variable. -/
theorem getElem?_toTable {document : SymbolDocument} {table : SymbolTable}
    (made : document.toTable = .ok table) {name : String} {entry : ValueEntry}
    (listed : document.variableEntries[name]? = some entry) :
    ∃ value, entry.toValue = .ok value ∧ table[name]? = some (.variable value) := by
  obtain ⟨entries, collected, added⟩ := bind_eq_ok.mp made
  unfold symbols at collected
  obtain ⟨assigned, ofVariables, collected⟩ := bind_eq_ok.mp collected
  obtain ⟨constants, _, collected⟩ := bind_eq_ok.mp collected
  obtain ⟨functions, _, ⟨⟩⟩ := bind_eq_ok.mp collected
  have member : (name, entry) ∈ document.variableEntries.toList :=
    Std.ExtTreeMap.mem_toList_iff_getElem?_eq_some.mpr listed
  obtain ⟨symbol, among, image⟩ := exists_of_mapM_eq_ok ofVariables member
  obtain ⟨value, read, ⟨⟩⟩ := bind_eq_ok.mp image
  refine ⟨value, ?_, ?_⟩
  · unfold valueOf at read
    cases outcome : entry.toValue with
    | error error =>
      rw [outcome] at read
      cases read
    | ok found =>
      rw [outcome] at read
      cases read
      rfl
  · rw [getElem?_foldlM_add added]
    left
    exact List.mem_append_left _ (List.mem_append_left _ (List.mem_append_left _ among))

end SymbolDocument

/-- Reading the document of a table is making a table of its entries, if its counts fit. -/
theorem SymbolTable.read_text {table after : SymbolTable} :
    SymbolTable.read table.text = .ok after ↔
      (SymbolDocument.ofTable table).Countable ∧
        (SymbolDocument.ofTable table).toTable = .ok after := by
  unfold SymbolTable.read SymbolTable.text
  rw [bind_eq_ok]
  constructor
  · rintro ⟨document, read, made⟩
    obtain ⟨countable, rfl⟩ := (SymbolDocument.reads _).run.mp read
    exact ⟨countable, made⟩
  · rintro ⟨countable, made⟩
    exact ⟨_, (SymbolDocument.reads _).run.mpr ⟨countable, rfl⟩, made⟩

end Reckoner
