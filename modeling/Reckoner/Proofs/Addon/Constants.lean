/-
Constants of addons, from the texts of a manifest to the texts that are shown and saved.

A constant is shown with as many fractional digits as its text has, so it can be shown without loss
only if it is a whole number of units of the last one. Its value is stored with a precision that has
a bit to spare for the digits of the text, but not always for the zeros that an exponent appends.

* `SignedText.CountsUnits` — a text stands for a whole number of units of the last digit that is
  written. It does unless its exponent is below zero (`SignedText.exists_countsUnits`).
* `SignedText.Keeps` — what a numeral that is written keeps of the text that its value was read of.
* `SignedText.exists_keeps` — a text that is stored and written with its own fractional digits.
* `AddonDirectory.load_keeps_constants` — **every constant of an addon that is loaded is shown and
  saved as a numeral that keeps its text**.
* `AddonDirectory.load_cuts_constant` — a text with too many units for the precision.
-/

import Reckoner.Proofs.Addon.Directory
import Reckoner.Proofs.Expression.Signed
import Reckoner.Script.Module

namespace Reckoner

namespace SignedText

variable (signed : SignedText)

/-! ### Whole units -/

/-- How many fractional digits are written; a text can have more than that. -/
def shownPlaces : Nat := min signed.places maxDecimalDigits

/-- A text stands for a whole number of units of the last digit that is written. -/
def CountsUnits (n : Int) : Prop := signed.value * 10 ^ signed.shownPlaces = n

/-- The precision of the value that is stored. -/
def storedPrecision : Nat := max (digitsToBits signed.significant) storedBits

variable {signed}

/-- Units of the value, as a power of ten with the exponent that is left. -/
theorem value_mul_pow (shown : Nat) :
    signed.value * 10 ^ shown =
      signed.numeral.mantissa * 10 ^ (signed.number.scale + (shown : Int)) := by
  rw [← numeral_value, Numeral.value, mul_assoc, ← zpow_natCast, ← Rat.zpow_add (by decide)]
  rfl

theorem countsUnits_of_eq {k : Nat} (left : signed.number.scale + signed.shownPlaces = k) :
    signed.CountsUnits (signed.numeral.mantissa * 10 ^ k) := by
  unfold CountsUnits
  rw [value_mul_pow, left, zpow_natCast]
  push_cast
  rfl

/-- A text counts units unless its exponent is below zero. -/
theorem exists_countsUnits (near : signed.number.scale.natAbs ≤ maxDecimalExponent)
    (appends : 0 ≤ signed.shift) : ∃ n, signed.CountsUnits n := by
  have parts := signed.scale_eq
  -- More digits than are ever written are more than a numeral may have, but for its exponent.
  have left : 0 ≤ signed.number.scale + signed.shownPlaces := by
    unfold shownPlaces maxDecimalDigits
    unfold maxDecimalExponent at near
    omega
  obtain ⟨k, eq⟩ := Int.eq_ofNat_of_zero_le left
  exact ⟨_, countsUnits_of_eq eq⟩

/-- Without an exponent the units are the digits of the text. -/
theorem countsUnits_of_unscaled (near : signed.number.scale.natAbs ≤ maxDecimalExponent)
    (plain : signed.number.exponent = none) : signed.CountsUnits signed.numeral.mantissa := by
  have parts := signed.scale_eq
  have none : signed.shift = 0 := by rw [shift, plain, Option.elim_none]
  have whole : signed.number.scale + signed.shownPlaces = (0 : Nat) := by
    unfold shownPlaces maxDecimalDigits
    unfold maxDecimalExponent at near
    omega
  have counted := countsUnits_of_eq whole
  rwa [pow_zero, mul_one] at counted

/-! ### Writing -/

/-- What a numeral that is written keeps of the text that its value was read of, with a precision
of so many bits. -/
structure Keeps (signed : SignedText) (bits : Nat) (written : PlainDecimal) : Prop where
  /-- Without an exponent, the value. -/
  unscaled : signed.number.exponent = none → written.value = signed.value
  /-- The value, if twice its units fit into the precision. -/
  few : ∀ n, signed.CountsUnits n → n.natAbs < 2 ^ (bits - 1) → written.value = signed.value
  /-- The value, if it fits into the precision itself. -/
  fits : ∀ n m e : Int, signed.CountsUnits n → signed.value = m * 2 ^ e → m.natAbs < 2 ^ bits →
    written.value = signed.value
  /-- Otherwise the value up to a last bit. -/
  near : ∀ n, signed.CountsUnits n →
    |written.value - signed.value| ≤ 2 ^ (1 - bits : Int) * |signed.value|

/-- A numeral of some units has the value of the text that counts as many. -/
theorem value_ofUnits {n : Int} (counts : signed.CountsUnits n) :
    (PlainDecimal.ofUnits n signed.shownPlaces).value = signed.value := by
  have power : (10 : Rat) ^ signed.shownPlaces ≠ 0 := (Rat.pow_pos (by decide)).ne'
  rw [PlainDecimal.value, PlainDecimal.ofUnits_units, PlainDecimal.ofUnits_places, ← counts,
    mul_div_cancel_right₀ _ power]

/-- The digits of a text are few enough for the precision that it is stored with. -/
theorem natAbs_mantissa_lt_stored (short : digitsToBits signed.significant ≤ maxPrecision) :
    signed.numeral.mantissa.natAbs < 2 ^ (signed.storedPrecision - 1) :=
  calc signed.numeral.mantissa.natAbs < 10 ^ signed.significant := signed.natAbs_mantissa_lt
    _ ≤ 2 ^ (digitsToBits signed.significant - 1) := ten_pow_le_two_pow_digitsToBits short
    _ ≤ 2 ^ (signed.storedPrecision - 1) :=
      Nat.pow_le_pow_right Nat.two_pos (Nat.sub_le_sub_right (Nat.le_max_left _ _) 1)

/-- The units of the value that is stored make a numeral that keeps the text. -/
theorem keeps_ofUnits (short : digitsToBits signed.significant ≤ maxPrecision)
    (near : signed.number.scale.natAbs ≤ maxDecimalExponent) {ctx : Context}
    (nearest : ctx.rounding = .nearest) (stored : ctx.bits = signed.storedPrecision) :
    signed.Keeps ctx.bits (.ofUnits
      (decimalUnits (signed.numeral.toNumber ctx).value signed.shownPlaces .nearest)
      signed.shownPlaces) := by
  have small := natAbs_mantissa_lt_stored short
  rw [← stored] at small
  have bounded : bitLength signed.numeral.mantissa.natAbs ≤ ctx.bits :=
    le_trans (bitLength_le_iff.mpr small) (Nat.sub_le _ _)
  have units {n : Int} (counts : signed.CountsUnits n) :
      signed.numeral.value * 10 ^ signed.shownPlaces = n := by rwa [numeral_value]
  have few (n : Int) (counts : signed.CountsUnits n) (less : n.natAbs < 2 ^ (ctx.bits - 1)) :
      decimalUnits (signed.numeral.toNumber ctx).value signed.shownPlaces .nearest = n := by
    refine Numeral.decimalUnits_toNumber nearest bounded (units counts) ?_
    rw [← Int.cast_abs, Int.abs_eq_natAbs]
    exact_mod_cast less
  refine ⟨fun plain => ?_, fun n counts less => ?_, fun n m e counts exact less => ?_,
    fun n counts => ?_⟩
  · have counts := countsUnits_of_unscaled near plain
    rw [few _ counts small, value_ofUnits counts]
  · rw [few n counts less, value_ofUnits counts]
  · have dyadic : (Dyadic.scaled m e).toRat = signed.numeral.value := by
      rw [Dyadic.toRat_scaled, numeral_value, exact]
    have read := Numeral.toNumber_eq dyadic (Dyadic.length_scaled_le (bitLength_le_iff.mpr less) e)
    have same : decimalUnits (signed.numeral.toNumber ctx).value signed.shownPlaces .nearest =
        n := by
      refine decimalUnits_of_near ?_
      rw [read, dyadic, units counts, sub_self, abs_zero, mul_zero]
      exact one_pos
    rw [same, value_ofUnits counts]
  · have off := (Numeral.decimalUnits_offBy nearest bounded (units counts)).div_right
      (10 ^ signed.shownPlaces)
    rw [← value_ofUnits counts]
    unfold PlainDecimal.value
    simp only [PlainDecimal.ofUnits_units, PlainDecimal.ofUnits_places]
    exact off

/-- **A text whose value is stored and written with its own fractional digits.** -/
theorem exists_keeps {text : String} {x : Number}
    (read : Number.fromDecimalStored text .nearest = .ok x) :
    ∃ signed : SignedText, Text.trim text.toList = signed.chars ∧
      Numeral.ofText? text = some signed.numeral ∧ writtenDecimals text = signed.places ∧
      (0 ≤ signed.shift → ∃ n, signed.CountsUnits n) ∧
      (digitsToBits signed.significant ≤ maxPrecision → ∃ written : PlainDecimal,
        x.toDecimal signed.places .nearest = String.ofList written.text ∧
        signed.Keeps signed.storedPrecision written) := by
  unfold Number.fromDecimalStored Number.readAt at read
  split at read
  · cases read
  · next numeral found =>
    cases read
    obtain ⟨signed, spelled, rfl, near⟩ := exists_of_ofText? found
    refine ⟨signed, spelled, found, writtenDecimals_eq spelled, exists_countsUnits near,
      fun short => ?_⟩
    have bits : (Context.ofBits signed.storedPrecision .nearest).bits = signed.storedPrecision := by
      have least : minPrecision ≤ storedBits := by decide
      have most : storedBits ≤ maxPrecision := by decide
      unfold storedPrecision
      show max minPrecision (min (max (digitsToBits signed.significant) storedBits) maxPrecision) =
        _
      omega
    refine ⟨_, ?_, bits ▸ keeps_ofUnits short near rfl bits⟩
    rw [PlainDecimal.ofUnits_text]
    rfl

end SignedText

/-! ### Loading -/

namespace AddonDirectory

variable {directory : AddonDirectory} {addon : String}

/-- **Every constant of an addon that is loaded is shown and saved as a numeral that keeps its
text**, as long as the digits of the text do not ask for more than the greatest precision. -/
theorem load_keeps_constants {contribution : Contribution}
    (loaded : (directory.load addon).1 = .ok contribution) :
    ∃ manifest, directory.manifest addon = .ok manifest ∧
      ∀ entry ∈ manifest.constants.toList, ∃ (signed : SignedText) (x : Number),
        Text.trim entry.2.toList = signed.chars ∧
        Numeral.ofText? entry.2 = some signed.numeral ∧
        (entry.1, .constant ⟨x, some signed.places⟩) ∈ contribution.symbols ∧
        (0 ≤ signed.shift → ∃ n, signed.CountsUnits n) ∧
        (digitsToBits signed.significant ≤ maxPrecision → ∃ written : PlainDecimal,
          x.toDecimal signed.places .nearest = String.ofList written.text ∧
          (ValueEntry.ofValue ⟨x, some signed.places⟩).value = String.ofList written.text ∧
          signed.Keeps signed.storedPrecision written) := by
  obtain ⟨module, made⟩ := contribution_of_result loaded
  unfold AddonDirectory.contribution at made
  simp only [bind_eq_ok] at made
  obtain ⟨manifest, described, constants, constantsMade, functions, -, _, -, scripts, -, ⟨⟩⟩ := made
  refine ⟨manifest, described, fun entry listed => ?_⟩
  obtain ⟨symbol, member, ofText⟩ := exists_of_mapM_eq_ok constantsMade listed
  obtain ⟨-, x, read, rfl⟩ := symbolOf_eq_ok.mp ofText
  obtain ⟨signed, spelled, found, places, counts, written⟩ := SignedText.exists_keeps read
  rw [places] at member
  refine ⟨signed, x, spelled, found, List.mem_append_left _ member, counts, fun short => ?_⟩
  obtain ⟨written, shown, keeps⟩ := written short
  exact ⟨written, shown, shown, keeps⟩

/-- A directory of an addon with a constant. -/
def holding (text : String) : AddonDirectory where
  files := .ofTexts [("addons/a/addon.json",
    "\x7b\"constants\": \x7b\"c\": \"" ++ text ++ "\"\x7d\x7d")]
  root := "addons"
  budget := 0
  loaded := ∅

/-- Blanks, a sign and zeros on both sides do no harm. -/
theorem load_keeps_constants_padded :
    ∃ contribution, ((holding " -03.140 ").load "a").1 = .ok contribution ∧
      ∃ (x : Number) (written : PlainDecimal),
        ("c", .constant ⟨x, some 3⟩) ∈ contribution.symbols ∧
        x.toDecimal 3 .nearest = String.ofList written.text ∧ written.value = -314 / 100 := by
  have loads : ((holding " -03.140 ").load "a").1.toOption.isSome := by decide +kernel
  obtain ⟨contribution, found⟩ := Option.isSome_iff_exists.mp loads
  have loaded := toOption_eq_some.mp found
  obtain ⟨manifest, described, constants⟩ := load_keeps_constants loaded
  have listed : ((holding " -03.140 ").manifest "a").toOption.map (·.constants.toList) =
    some [("c", " -03.140 ")] := by decide +kernel
  rw [described] at listed
  have entry : ("c", " -03.140 ") ∈ manifest.constants.toList := by
    rw [show manifest.constants.toList = [("c", " -03.140 ")] from Option.some.inj listed]
    exact List.mem_singleton_self _
  obtain ⟨signed, x, spelled, read, member, -, written⟩ := constants _ entry
  have numeral : Numeral.ofText? " -03.140 " = some ⟨-3140, -3, 4⟩ := by decide +kernel
  have same : signed.numeral = ⟨-3140, -3, 4⟩ := by
    rw [read] at numeral
    exact Option.some.inj numeral
  have places : signed.places = 3 := by
    rw [← SignedText.writtenDecimals_eq spelled]
    decide +kernel
  have significant : signed.significant = 4 := congrArg Numeral.digits same
  have value : signed.value = -314 / 100 := by
    rw [← SignedText.numeral_value, same]
    decide +kernel
  obtain ⟨written, shown, -, keeps⟩ := written (by rw [significant]; decide +kernel)
  rw [places] at member shown
  refine ⟨contribution, loaded, x, written, member, shown, ?_⟩
  rw [← value]
  refine keeps.few (-3140) ?_ ?_
  · unfold SignedText.CountsUnits SignedText.shownPlaces
    rw [value, places]
    decide +kernel
  · unfold SignedText.storedPrecision
    rw [significant]
    decide +kernel

/-- A constant with one significant digit whose zeros are too many for the precision that it is
stored with is shown as another integer. -/
theorem load_cuts_constant :
    ∃ contribution, ((holding "1e500").load "a").1 = .ok contribution ∧
      ∃ (signed : SignedText) (x : Number) (written : PlainDecimal),
        signed.chars = "1e500".toList ∧ digitsToBits signed.significant ≤ maxPrecision ∧
        contribution.symbols = [("c", .constant ⟨x, some (writtenDecimals "1e500")⟩)] ∧
        x.toDecimal (writtenDecimals "1e500") .nearest = String.ofList written.text ∧
        written.value ≠ signed.value := by
  let x : Number := (Numeral.mk 1 500 1).toNumber (.ofBits 1024 .nearest)
  have loads : ((holding "1e500").load "a").1.toOption.map (·.symbols) =
    some [("c", .constant ⟨x, some (writtenDecimals "1e500")⟩)] := by decide +kernel
  obtain ⟨contribution, found, symbols⟩ := Option.map_eq_some_iff.mp loads
  let signed : SignedText := ⟨none, ['1'], none, some ⟨'e', none, ['5', '0', '0'], rfl, rfl,
    List.cons_ne_nil _ _⟩, rfl, rfl, .inl (List.cons_ne_nil _ _)⟩
  refine ⟨contribution, toOption_eq_some.mp found, signed, x,
    .ofUnits (decimalUnits x.value 0 .nearest) 0, by decide, by decide +kernel, symbols, ?_, ?_⟩
  · rw [PlainDecimal.ofUnits_text]
    rfl
  · have units : (decimalUnits x.value 0 .nearest : Rat) ≠ signed.value := by decide +kernel
    rwa [PlainDecimal.value, PlainDecimal.ofUnits_units, PlainDecimal.ofUnits_places, pow_zero,
      div_one]

end AddonDirectory

end Reckoner
