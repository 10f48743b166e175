/-
Documents that lose nothing.

A table of functions and scripts, a set of addons and the settings consist of texts, counts and names
of fixed sets only, and each of these is read as it was written.

* `Reader.countable_iff` — a count is read back exactly if it has at most 64 bits: then the double that
  a reader compares it with is finite.
* `SymbolDocument.toTable_ofTable` — the table of the entries of a table.
* `documents_read_text` — **a table of functions and scripts, a set of addons and settings are read
  back from their documents as they were**.
-/

import Reckoner.Document.Settings
import Reckoner.Proofs.Document.Tables
import Reckoner.Proofs.Number.Doubles

namespace Reckoner

/-! ### Counts -/

namespace Reader

open Written (absorb)

/-- Digits that fit into 64 bits are taken as a whole. -/
theorem absorb_of_le {start : Nat} {digits : List Char}
    (short : digits.foldl (fun n c => 10 * n + digitValue c) start ≤ maxCount) :
    absorb start digits =
      (digits.foldl (fun n c => 10 * n + digitValue c) start, digits.length) := by
  induction digits generalizing start with
  | nil => rfl
  | cons c rest ih =>
    rw [List.foldl_cons] at short ⊢
    have grows : 10 * start + digitValue c ≤
        rest.foldl (fun n c => 10 * n + digitValue c) (10 * start + digitValue c) := by
      rw [digitsValue_foldl]
      exact Nat.le_trans (Nat.le_mul_of_pos_right _ (Nat.pow_pos (by decide)))
        (Nat.le_add_right _ _)
    rw [absorb, if_neg (by omega), ih short]
    rfl

/-- **A count is read back exactly if it has at most 64 bits.** -/
theorem countable_iff {n : Nat} : Countable n ↔ n ≤ maxCount := by
  refine and_iff_right_of_imp fun short => ?_
  have value : (naturalDigits n).foldl (fun n c => 10 * n + digitValue c) 0 = n :=
    digitsValue_naturalDigits n
  have taken : absorb 0 (naturalDigits n) = (n, (naturalDigits n).length) := by
    have short : (naturalDigits n).foldl (fun n c => 10 * n + digitValue c) 0 ≤ maxCount := by
      rwa [value]
    rw [absorb_of_le short, value]
  -- All digits are taken, so the significand is compared without a power of ten.
  have exponent : ((naturalDigits n).length : Int) - (naturalDigits n).length - (0 : Nat) +
      (none : Option Int).getD 0 = 0 := by
    simp
  have bits : bitLength n ≤ 64 := by
    rw [bitLength_le_iff]
    exact Nat.lt_of_le_of_lt short (by decide)
  have finite : ((Binary64.ofInt n).mul (Binary64.ofInt (10 ^ (0 : Int).toNat))).isFinite :=
    Binary64.isFinite_mul (Binary64.pattern_ofInt_le bits (by decide))
      (Binary64.pattern_ofInt_le (n := 1) (g := 1) (by decide) (by decide)) (by decide)
  unfold Written.isTooLarge plain
  simp only [taken, absorb, exponent, finite]
  split <;> rfl

end Reader

/-! ### Sets of names -/

/-- A set is made of its names. -/
theorem NameSet.ofList_toList (names : NameSet) :
    Std.ExtTreeSet.ofList names.toList compare = names := by
  refine Std.ExtTreeSet.ext_mem fun name => ?_
  rw [Std.ExtTreeSet.mem_ofList, List.contains_iff_mem, Std.ExtTreeSet.mem_toList]

/-! ### Tables -/

/-- Whether a symbol is described by texts and a count of 64 bits. -/
def Symbol.Textual : Symbol → Prop
  | .function _ => True
  | .script ref => ref.arity ≤ maxCount
  | .variable _ | .constant _ => False

namespace SymbolDocument

/-- The function of an entry is the one that the entry was made of. -/
theorem functionOf_entry (name : String) (f : UserFunction) :
    functionOf name ⟨f.expression, f.arguments⟩ = .ok f := by
  unfold functionOf UserFunction.define
  split
  · rfl
  · next fault found =>
    rw [f.wellFormed] at found
    cases found

/-- The entry of a symbol that is a function. -/
def functionPart? : Symbol → Option FunctionEntry
  | .function f => some ⟨f.expression, f.arguments⟩
  | _ => none

/-- The reference of a symbol that is a script. -/
def scriptPart? : Symbol → Option ScriptRef
  | .script ref => some ref
  | _ => none

/-- The entries of the functions among some symbols give these functions. -/
theorem mapM_functionOf (symbols : List (String × Symbol)) :
    (symbols.filterMap fun (name, symbol) => (functionPart? symbol).map (name, ·)).mapM
        (fun (name, entry) => return (name, Symbol.function (← functionOf name entry))) =
      .ok (symbols.filter fun entry => entry.2.kind = .function) := by
  induction symbols with
  | nil => rfl
  | cons entry rest ih =>
    obtain ⟨name, symbol⟩ := entry
    obtain value | value | f | ref := symbol
    · exact ih
    · exact ih
    · show List.mapM _ ((name, FunctionEntry.mk f.expression f.arguments) ::
        List.filterMap _ rest) = _
      rw [List.mapM_cons, ih]
      dsimp only
      rw [functionOf_entry]
      rfl
    · exact ih

/-- The references of the scripts among some symbols give these scripts. -/
theorem map_scriptPart (symbols : List (String × Symbol)) :
    (symbols.filterMap fun (name, symbol) => (scriptPart? symbol).map (name, ·)).map
        (fun (name, ref) => (name, Symbol.script ref)) =
      symbols.filter fun entry => entry.2.kind = .script := by
  induction symbols with
  | nil => rfl
  | cons entry rest ih =>
    obtain ⟨name, symbol⟩ := entry
    obtain value | value | f | ref := symbol
    · exact ih
    · exact ih
    · exact ih
    · exact congrArg ((name, Symbol.script ref) :: ·) ih

/-- Symbols with valid names, all different and all new, are added to a table. -/
theorem exists_foldlM_add {entries : List (String × Symbol)} {start : SymbolTable}
    (valid : ∀ entry ∈ entries, isValidName entry.1)
    (different : entries.Pairwise fun a b => a.1 ≠ b.1)
    (fresh : ∀ entry ∈ entries, entry.1 ∉ start) :
    ∃ after, entries.foldlM add start = .ok after := by
  induction entries generalizing start with
  | nil => exact ⟨start, rfl⟩
  | cons entry rest ih =>
    obtain ⟨name, symbol⟩ := entry
    obtain ⟨apart, different⟩ := List.pairwise_cons.mp different
    obtain ⟨validName, valid⟩ := List.forall_mem_cons.mp valid
    obtain ⟨free, fresh⟩ := List.forall_mem_cons.mp fresh
    have later : ∀ entry ∈ rest, entry.1 ∉ start.insert name symbol := by
      intro entry member held
      rw [Std.ExtTreeMap.mem_insert, Std.LawfulEqCmp.compare_eq_iff_eq] at held
      rcases held with same | before
      · exact apart entry member same
      · exact fresh entry member before
    obtain ⟨after, added⟩ := ih valid different later
    exact ⟨after, foldlM_cons_eq_ok.mpr ⟨_, add_eq_ok.mpr ⟨validName, free, rfl⟩, added⟩⟩

section Tables

variable {table : SymbolTable}
  (valid : ∀ name symbol, table[name]? = some symbol → isValidName name ∧ symbol.Textual)

include valid

theorem textual_of_mem {entry : String × Symbol} (member : entry ∈ table.toList) :
    isValidName entry.1 ∧ entry.2.Textual :=
  valid entry.1 entry.2 (Std.ExtTreeMap.mem_toList_iff_getElem?_eq_some.mp member)

/-- A table of functions and scripts has no entry of a kind that neither of them has. -/
theorem toList_filterMap_eq_nil {α : Type} {part? : Symbol → Option α}
    (none_function : ∀ f, part? (.function f) = none)
    (none_script : ∀ ref, part? (.script ref) = none) :
    (table.filterMap fun _ symbol => part? symbol).toList = [] := by
  rw [Std.ExtTreeMap.toList_filterMap, List.filterMap_eq_nil_iff]
  intro entry member
  obtain ⟨name, symbol⟩ := entry
  obtain ⟨_, textual⟩ := textual_of_mem valid member
  obtain value | value | f | ref := symbol
  · exact textual.elim
  · exact textual.elim
  · exact congrArg (Option.map _) (none_function f)
  · exact congrArg (Option.map _) (none_script ref)

theorem variableEntries_ofTable : (ofTable table).variableEntries.toList = [] :=
  toList_filterMap_eq_nil valid (fun _ => rfl) fun _ => rfl

theorem constantEntries_ofTable : (ofTable table).constantEntries.toList = [] :=
  toList_filterMap_eq_nil valid (fun _ => rfl) fun _ => rfl

theorem countable_ofTable : (ofTable table).Countable := by
  refine ⟨?_, ?_, ?_⟩
  · rw [variableEntries_ofTable valid]
    exact List.forall_mem_nil _
  · rw [constantEntries_ofTable valid]
    exact List.forall_mem_nil _
  · intro entry member
    have scripts : (ofTable table).scriptEntries.toList =
        table.toList.filterMap fun (name, symbol) => (scriptPart? symbol).map (name, ·) :=
      Std.ExtTreeMap.toList_filterMap
    rw [scripts, List.mem_filterMap] at member
    obtain ⟨⟨name, symbol⟩, listed, made⟩ := member
    obtain ⟨_, textual⟩ := textual_of_mem valid listed
    obtain value | value | f | ref := symbol
    · cases made
    · cases made
    · cases made
    · cases made
      exact Reader.countable_iff.mpr textual

/-- The symbols of the entries of a table are those of the table. -/
theorem symbols_ofTable :
    ∃ symbols, (ofTable table).symbols = .ok symbols ∧ symbols.Perm table.toList := by
  have functions : (ofTable table).functionEntries.toList =
      table.toList.filterMap fun (name, symbol) => (functionPart? symbol).map (name, ·) :=
    Std.ExtTreeMap.toList_filterMap
  have scripts : (ofTable table).scriptEntries.toList =
      table.toList.filterMap fun (name, symbol) => (scriptPart? symbol).map (name, ·) :=
    Std.ExtTreeMap.toList_filterMap
  have others : (table.toList.filter fun entry => entry.2.kind = .script) =
      table.toList.filter fun entry => !decide (entry.2.kind = .function) := by
    refine List.filter_congr fun entry member => ?_
    obtain ⟨name, symbol⟩ := entry
    obtain ⟨_, textual⟩ := textual_of_mem valid member
    obtain value | value | f | ref := symbol
    · exact textual.elim
    · exact textual.elim
    · rfl
    · rfl
  refine ⟨(table.toList.filter fun entry => entry.2.kind = .function) ++
    table.toList.filter fun entry => entry.2.kind = .script, ?_, ?_⟩
  · unfold symbols
    rw [variableEntries_ofTable valid, constantEntries_ofTable valid, functions, scripts,
      mapM_functionOf, map_scriptPart]
    rfl
  · rw [others]
    exact List.filter_append_perm _ _

/-- **The entries of a table of functions and scripts make the same table.** -/
theorem toTable_ofTable : (ofTable table).toTable = .ok table := by
  obtain ⟨symbols, collected, perm⟩ := symbols_ofTable valid
  have names : ∀ entry ∈ symbols, isValidName entry.1 := fun entry member =>
    (textual_of_mem valid (perm.mem_iff.mp member)).1
  have different : symbols.Pairwise fun a b => a.1 ≠ b.1 := by
    have keys : table.toList.Pairwise fun a b => a.1 ≠ b.1 := by
      refine Std.ExtTreeMap.distinct_keys_toList.imp fun apart same => ?_
      exact apart (Std.LawfulEqCmp.compare_eq_iff_eq.mpr same)
    exact (perm.pairwise_iff fun apart => apart.symm).mpr keys
  obtain ⟨after, added⟩ : ∃ after, symbols.foldlM add ∅ = .ok after :=
    exists_foldlM_add names different fun _ _ => Std.ExtTreeMap.not_mem_empty
  have same : after = table := by
    refine Std.ExtTreeMap.ext_getElem? fun name => Option.ext fun symbol => ?_
    rw [getElem?_foldlM_add added, perm.mem_iff, Std.ExtTreeMap.mem_toList_iff_getElem?_eq_some,
      Std.ExtTreeMap.getElem?_empty, or_iff_left (by rintro ⟨⟩)]
  unfold toTable
  rw [collected, ← same]
  exact added

end Tables

end SymbolDocument

/-! ### Settings -/

/-- Whether the counts of settings have at most 64 bits, as every setting that is held in a machine
word has. -/
structure Settings.Countable (settings : Settings) : Prop where
  precisionBits : settings.precisionBits ≤ maxCount
  displayPrecision : settings.displayPrecision ≤ maxCount
  maxDepth : settings.maxDepth ≤ maxCount
  scriptMaxOperations : settings.scriptMaxOperations ≤ maxCount

theorem Rounding.ofName?_name (mode : Rounding) : ofName? mode.name = some mode := by
  cases mode <;> decide

namespace Settings

open Reader (Reads)

theorem reads (settings : Settings) :
    Reads (.record fields true {}) settings.json settings.Countable settings := by
  obtain ⟨bits, rounding, shown, displayed, depth, operations⟩ := settings
  refine Reads.congr (Reads.record
    (.field rfl List.not_mem_nil ((Reads.count bits).map _)
      (.field rfl (by decide) ((Reads.choice rounding.ofName?_name).map _)
        (.field rfl (by decide) ((Reads.count shown).map _)
          (.field rfl (by decide) ((Reads.choice displayed.ofName?_name).map _)
            (.field rfl (by decide) ((Reads.count depth).map _)
              (.field rfl (by decide) ((Reads.count operations).map _)
                (.done rfl)))))))) ?_
  simp only [Reader.countable_iff]
  constructor
  · rintro ⟨first, _, second, _, third, fourth, _⟩
    exact ⟨first, second, third, fourth⟩
  · rintro ⟨first, second, third, fourth⟩
    exact ⟨first, trivial, second, trivial, third, fourth, trivial⟩

end Settings

/-! ### Documents -/

/-- **A table of functions and scripts, a set of addons and settings are read back from their
documents as they were.** -/
theorem documents_read_text {table : SymbolTable} {settings : Settings}
    (valid : ∀ name symbol, table[name]? = some symbol → isValidName name ∧ symbol.Textual)
    (names : NameSet) (countable : settings.Countable) :
    SymbolTable.read table.text = .ok table ∧ NameSet.read names.text = .ok names ∧
      Settings.read settings.text = .ok settings := by
  refine ⟨?_, ?_, ?_⟩
  · exact SymbolTable.read_text.mpr
      ⟨SymbolDocument.countable_ofTable valid, SymbolDocument.toTable_ofTable valid⟩
  · have read := (Reader.Reads.list Reader.Reads.string names.toList).run.mpr
      ⟨fun _ _ => trivial, rfl⟩
    unfold NameSet.read NameSet.text Json.texts
    rw [read]
    show Except.ok (Std.ExtTreeSet.ofList names.toList compare) = _
    rw [NameSet.ofList_toList]
  · exact settings.reads.run.mpr ⟨countable, rfl⟩

/-- Quotes, backslashes and control characters in a body and in the parts of a reference, and the
largest counts. -/
theorem documents_read_text_escapes :
    let body : UserFunction := ⟨["x", "y_2"], "x \"+\\\n\x01 é", rfl⟩
    let script : ScriptRef := ⟨"add\ton", "", 18446744073709551615⟩
    let table : SymbolTable :=
      ((∅ : SymbolTable).insert "f" (.function body)).insert "_g" (.script script)
    let names : NameSet := .ofList ["a \"b\"", "\r\x7f", ""] compare
    let settings : Settings := { maxDepth := 18446744073709551615, rounding := .awayFromZero }
    SymbolTable.read table.text = .ok table ∧ NameSet.read names.text = .ok names ∧
      Settings.read settings.text = .ok settings := by
  intro body script table names settings
  refine documents_read_text (fun name symbol found => ?_) names ⟨?_, ?_, ?_, ?_⟩
  · rw [NameMap.getElem?_insert, NameMap.getElem?_insert, Std.ExtTreeMap.getElem?_empty] at found
    split at found
    · next second =>
      cases found
      rw [← second]
      exact ⟨by decide, Nat.le_refl _⟩
    · split at found
      · next first =>
        cases found
        rw [← first]
        exact ⟨by decide, trivial⟩
      · cases found
  all_goals
    decide

end Reckoner
