/-
What a saved table gives back.

A computed value is written with all its digits and with its precision label, and its digits are
read at that label. A label says what precision was asked for, and some results keep more bits than
that: a difference one more, and an exact quotient all of them. Such a value is rounded again when
it is read.

* `Number.readingBits`, `Number.Restored` — the precision at which a number is read again, and
  whether that is enough.
* `ValueEntry.toValue_ofValue` — the entry of a computed value, read again.
* `SymbolTable.reload_variable` — **a computed value is reloaded as it was exactly if the precision
  it is read at is enough for its digits**.
* `SymbolTable.reload_difference` — a difference that comes back as another number.
-/

import Reckoner.Document.Settings
import Reckoner.Evaluation.Evaluate
import Reckoner.Proofs.Document.Tables
import Reckoner.Proofs.Number.PlainDecimal

namespace Reckoner

/-! ### One value -/

namespace Number

/-- The precision at which the digits of a computed number are read again: its label, or what the
digits ask for if it has none. -/
def readingBits (x : Number) : Nat :=
  if x.bits = 0 then max (digitsToBits x.numeral.digits) storedBits else x.bits

/-- Whether all digits of a number give the number back at the precision they are read at. -/
def Restored (x : Number) : Prop :=
  x.value.RecoverableAt (max minPrecision (min x.readingBits maxPrecision))

instance (x : Number) : Decidable x.Restored :=
  inferInstanceAs (Decidable (x.value.RecoverableAt _))

/-- A number with no more bits than its label is restored. -/
theorem restored_of_length_le {x : Number} (short : x.value.length ≤ x.bits)
    (bound : x.bits ≤ maxPrecision) : x.Restored := by
  refine Dyadic.recoverableAt_of_length_le ?_
  unfold readingBits
  split
  · omega
  · have positive : min x.bits maxPrecision = x.bits := Nat.min_eq_left bound
    rw [positive]
    exact Nat.le_trans short (Nat.le_max_right _ _)

end Number

/-- All digits of a number are read as its numeral, at any precision. -/
theorem Number.readAt_toExactDecimal (x : Number) (bits : Numeral → Nat) (mode : Rounding) :
    Number.readAt bits x.toExactDecimal mode =
      if maxDecimalExponent < (-x.value.exponent).toNat then .error ⟨x.toExactDecimal⟩
      else .ok (x.numeral.toNumber (.ofBits (bits x.numeral) mode)) := by
  unfold Number.readAt
  rw [ofText?_toExactDecimal]
  by_cases long : maxDecimalExponent < (-x.value.exponent).toNat
  · rw [if_pos long, if_pos long]
  · rw [if_neg long, if_neg long]

/-- The entry of a computed value is read as its numeral. -/
theorem ValueEntry.toValue_ofValue (x : Number) :
    (ValueEntry.ofValue ⟨x, none⟩).toValue =
      if maxDecimalExponent < (-x.value.exponent).toNat then .error ⟨x.toExactDecimal⟩
      else .ok ⟨x.numeral.toNumber (.ofBits x.readingBits .nearest), none⟩ := by
  have read : (ValueEntry.ofValue ⟨x, none⟩).toValue =
      Number.readAt (fun numeral => if x.bits = 0 then max (digitsToBits numeral.digits) storedBits
        else x.bits) x.toExactDecimal .nearest >>= fun value => pure ⟨value, none⟩ := by
    obtain ⟨value, bits⟩ := x
    cases bits <;> rfl
  rw [read, Number.readAt_toExactDecimal]
  by_cases long : maxDecimalExponent < (-x.value.exponent).toNat
  · rw [if_pos long, if_pos long]
    rfl
  · rw [if_neg long, if_neg long]
    rfl

/-! ### Whole tables -/

namespace SymbolTable

/-- **A computed value is reloaded as it was exactly if the precision it is read at is enough for
its digits**, whatever else the table holds. -/
theorem reload_variable {table after : SymbolTable}
    (accepted : SymbolTable.read table.text = .ok after) {name : String} {value : Number}
    (stored : table[name]? = some (.variable ⟨value, none⟩)) :
    ∃ reloaded, after[name]? = some (.variable ⟨reloaded, none⟩) ∧
      (reloaded.same value ↔ value.Restored) := by
  obtain ⟨_, made⟩ := read_text.mp accepted
  have listed : (SymbolDocument.ofTable table).variableEntries[name]? =
      some (ValueEntry.ofValue ⟨value, none⟩) := by
    show (table.filterMap _)[name]? = _
    rw [Std.ExtTreeMap.getElem?_filterMap', stored]
    rfl
  obtain ⟨reloaded, read, found⟩ := SymbolDocument.getElem?_toTable made listed
  rw [ValueEntry.toValue_ofValue] at read
  split at read
  · cases read
  · cases read
    refine ⟨_, found, ?_⟩
    unfold Number.same
    rw [decide_eq_true_iff, Number.toNumber_numeral]
    rfl

/-- The symbols that a text leaves with the default settings. -/
def assigned (text : String) : SymbolTable :=
  (evaluate text ∅ .empty ⟨.standard, defaultMaxDepth⟩).2

/-- A table with one computed value. -/
def single (value : Number) : SymbolTable :=
  (∅ : SymbolTable).insert "x" (.variable ⟨value, none⟩)

/-- A symbol of the table of a document, after reading the text of the document. -/
theorem exists_read_text {table : SymbolTable}
    (countable : (SymbolDocument.ofTable table).Countable) {name : String} {symbol : Symbol}
    (found : (SymbolDocument.ofTable table).toTable.toOption.bind (·[name]?) = some symbol) :
    ∃ after, SymbolTable.read table.text = .ok after ∧ after[name]? = some symbol := by
  obtain ⟨after, made, holds⟩ := Option.bind_eq_some_iff.mp found
  exact ⟨after, read_text.mpr ⟨countable, toOption_eq_some.mp made⟩, holds⟩

/-- An exact quotient comes back as it was. -/
theorem reload_variable_quotient :
    ∃ after reloaded, SymbolTable.read (assigned "x := 5 / 2").text = .ok after ∧
      after["x"]? = some (.variable ⟨reloaded, none⟩) ∧ reloaded.same ⟨.scaled 5 (-1), 128⟩ := by
  have table : assigned "x := 5 / 2" = single ⟨.scaled 5 (-1), 128⟩ := by decide +kernel
  have countable : (SymbolDocument.ofTable (single ⟨.scaled 5 (-1), 128⟩)).Countable :=
    ⟨by decide +kernel, by decide +kernel, by decide +kernel⟩
  have found : (SymbolDocument.ofTable (single ⟨.scaled 5 (-1), 128⟩)).toTable.toOption.bind
      (·["x"]?) = some (.variable ⟨⟨.scaled 5 (-1), 128⟩, none⟩) := by decide +kernel
  have stored : (single ⟨.scaled 5 (-1), 128⟩)["x"]? =
      some (.variable ⟨⟨.scaled 5 (-1), 128⟩, none⟩) := by decide +kernel
  have restored : Number.Restored ⟨.scaled 5 (-1), 128⟩ := by decide +kernel
  obtain ⟨after, accepted, _⟩ := exists_read_text countable found
  obtain ⟨reloaded, reads, same⟩ := reload_variable accepted stored
  rw [table]
  exact ⟨after, reloaded, accepted, reads, same.mpr restored⟩

/-- A difference of 129 bits comes back with 128 of them. -/
theorem reload_difference :
    (assigned "x := 680564733841876926926749214863536422912 - 3")["x"]? =
        some (.variable ⟨⟨.ofInt 680564733841876926926749214863536422909, 128⟩, none⟩) ∧
      ∃ after, SymbolTable.read
          (assigned "x := 680564733841876926926749214863536422912 - 3").text = .ok after ∧
        after["x"]? =
          some (.variable ⟨⟨.ofInt 680564733841876926926749214863536422908, 128⟩, none⟩) := by
  have table : assigned "x := 680564733841876926926749214863536422912 - 3" =
      single ⟨.ofInt 680564733841876926926749214863536422909, 128⟩ := by decide +kernel
  rw [table]
  refine ⟨by decide +kernel, exists_read_text ⟨?_, ?_, ?_⟩ ?_⟩
  all_goals
    decide +kernel

end SymbolTable

end Reckoner
