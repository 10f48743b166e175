/-
The range of results, and what stays in it.

* `Number.InRange` — zero, or a magnitude that `checked` lets pass; `Number.inRange_iff` says it in
  powers of two.
* `Number.checked_inRange` — a checked result is in the range, whatever was checked.
* `Number.roundTo_inRange` — rounding leaves the range at its upper end only.
* `BinaryOp.apply_inRange`, `Number.sqrt_inRange`, `Number.ofBinary64_inRange` — every operation but
  the remainder, square roots, and numbers from scripts.
* `Builtin.unchecked` — the functions whose results are not checked.
* `Builtin.keepsRange`, `constant?_inRange` — **every other built-in function keeps the range, and
  the constants are in it**.
-/

import Reckoner.Evaluation.Evaluate
import Reckoner.Proofs.Outcome
import Reckoner.Proofs.Number.Constants

namespace Reckoner

namespace Number

variable {x y : Number} {ctx : Context}

/-- Whether a number is zero or has a magnitude in the range of results. -/
def InRange (x : Number) : Prop := x.value = 0 ∨ x.magnitude.natAbs ≤ maxMagnitude

instance (x : Number) : Decidable x.InRange := inferInstanceAs (Decidable (_ ∨ _))

theorem magnitude_mk (value : Dyadic) (bits : Nat) :
    magnitude ⟨value, bits⟩ = value.magnitude := rfl

/-- The numbers of the range lie between two powers of two in size. -/
theorem inRange_iff (x : Number) : x.InRange ↔ x.value = 0 ∨
    2 ^ (-(maxMagnitude : Int) - 1) ≤ x.value.abs.toRat ∧
      x.value.abs.toRat < 2 ^ (maxMagnitude : Int) := by
  unfold InRange
  by_cases zero : x.value = 0
  · exact iff_of_true (.inl zero) (.inl zero)
  · rw [← Rat.not_lt, ← Dyadic.magnitude_le_iff zero, ← Dyadic.magnitude_le_iff zero]
    have magnitude : x.magnitude = x.value.magnitude := rfl
    refine or_congr_right ?_
    omega

theorem inRange_zero : zero.InRange := .inl rfl

theorem inRange_one : one.InRange := .inr (by decide)

/-- **A checked result is in the range**, whatever was checked. -/
theorem checked_inRange {function : String} (kept : x.checked function = .ok y) : y.InRange := by
  unfold checked at kept
  split at kept
  · cases kept
  · split at kept
    · cases kept
      exact inRange_zero
    · cases kept
      exact .inr (by omega)

theorem negate_inRange (inRange : x.InRange) : x.negate.InRange := by
  rcases inRange with zero | within
  · left
    unfold negate
    rw [zero]
    rfl
  · right
    have magnitude : x.negate.magnitude = x.magnitude := Dyadic.magnitude_neg x.value
    rwa [magnitude]

theorem abs_inRange (inRange : x.InRange) : x.abs.InRange := by
  unfold abs Dyadic.abs
  split
  · exact negate_inRange inRange
  · exact inRange

/-- Rounding leaves the range at its upper end only. -/
theorem roundTo_inRange (below : x.value = 0 ∨
    -(maxMagnitude : Int) ≤ x.magnitude ∧ x.magnitude < maxMagnitude) (ctx : Context) :
    (x.roundTo ctx).InRange := by
  unfold roundTo InRange
  rw [magnitude_mk]
  dsimp only
  split
  · by_cases zero : x.value = 0
    · exact .inl ((Dyadic.cut_eq_zero_iff (positive_bits ctx)).mpr zero)
    · have rounded := (Dyadic.cut_spec (positive_bits ctx) ctx.rounding zero).2.2
      have within := below.resolve_left zero
      have same : x.magnitude = x.value.magnitude := rfl
      right
      omega
  · refine below.imp_right fun within => ?_
    have same : x.magnitude = x.value.magnitude := rfl
    omega

/-! ### Operations -/

theorem div_inRange {z : Number} (divided : x.div y ctx = .ok z) : z.InRange := by
  unfold div at divided
  split at divided
  · cases divided
  · exact checked_inRange divided

theorem pow_inRange {z : Number} (raised : x.pow y ctx = .ok z) : z.InRange := by
  unfold pow at raised
  repeat' split at raised
  all_goals first | exact checked_inRange raised | cases raised
  all_goals first | exact inRange_zero | exact inRange_one

theorem exp_inRange (raised : x.exp ctx = .ok y) : y.InRange := by
  unfold exp at raised
  repeat' split at raised
  all_goals first | exact checked_inRange raised | cases raised
  all_goals first | exact inRange_zero | exact inRange_one

theorem sinh_inRange (applied : x.sinh ctx = .ok y) : y.InRange := by
  unfold sinh at applied
  split at applied
  · cases applied
  · exact checked_inRange applied

theorem cosh_inRange (applied : x.cosh ctx = .ok y) : y.InRange := by
  unfold cosh at applied
  split at applied
  · cases applied
  · exact checked_inRange applied

/-- A checked square is not below zero. -/
theorem square_spec (multiplied : x.mul x ctx = .ok y) : y.isNegative = false ∧
    (y.value = 0 ∨ -(maxMagnitude : Int) ≤ y.magnitude ∧ y.magnitude ≤ maxMagnitude) := by
  refine ⟨?_, (checked_inRange multiplied).imp_right fun within => by omega⟩
  unfold mul checked at multiplied
  split at multiplied
  · cases multiplied
  · split at multiplied
    · rw [← Except.ok.inj multiplied]
      rfl
    · rw [← Except.ok.inj multiplied]
      exact Dyadic.isNegative_product_self (positive_bits ctx) x.value

/-- A square root is in the range even if its operand is a little above it. -/
theorem sqrt_inRange_of_le (nonnegative : x.value = 0 ∨
      -(maxMagnitude : Int) ≤ x.magnitude ∧ x.magnitude ≤ maxMagnitude + 2)
    (rooted : x.sqrt ctx = .ok y) : y.InRange := by
  unfold sqrt at rooted
  split at rooted
  · cases rooted
  · split at rooted
    · cases rooted
      exact inRange_zero
    · next nonzero =>
      rw [← Except.ok.inj rooted]
      have counted : x.value ≠ 0 := by
        intro zero
        exact nonzero (decide_eq_true zero)
      have halved := Dyadic.magnitude_squareRoot (positive_bits ctx) ctx.rounding counted
      have within := nonnegative.resolve_left counted
      have wide : 9 ≤ maxMagnitude := by decide
      have same : x.magnitude = x.value.magnitude := rfl
      right
      rw [magnitude_mk]
      omega

theorem sqrt_inRange (inRange : x.InRange) (rooted : x.sqrt ctx = .ok y) : y.InRange := by
  refine sqrt_inRange_of_le (inRange.imp_right fun within => ?_) rooted
  omega

end Number

/-- **Every operation but the remainder checks its result.** -/
theorem BinaryOp.apply_inRange {op : BinaryOp} (checked : op ≠ .rem) {x y z : Number}
    {ctx : Context} (applied : op.apply x y ctx = .ok z) : z.InRange := by
  cases op with
  | add => exact Number.checked_inRange applied
  | sub => exact Number.checked_inRange applied
  | mul => exact Number.checked_inRange applied
  | div => exact Number.div_inRange applied
  | rem => exact absurd rfl checked
  | pow => exact Number.pow_inRange applied

theorem Sign.apply_inRange (sign : Sign) {x : Number} (inRange : x.InRange) :
    (sign.apply x).InRange := by
  cases sign with
  | plus => exact inRange
  | minus => exact Number.negate_inRange inRange

/-! ### Doubles -/

/-- A finite double has a magnitude between that of the smallest and that of the largest one. -/
theorem Binary64.magnitude_value {d : Binary64} (finite : d.isFinite) :
    d.value = 0 ∨ -1074 ≤ d.value.magnitude ∧ d.value.magnitude ≤ 1025 := by
  have pattern : d.pattern ≤ (1024 + 1023) * 2 ^ 52 := by
    have bound := of_decide_eq_true finite
    unfold infinityPattern at bound
    omega
  have signed : d.value.magnitude = d.magnitude.magnitude := by
    unfold value
    split
    · exact Dyadic.magnitude_neg _
    · rfl
  by_cases zero : (d.significand : Int) = 0
  · left
    have none : d.magnitude = 0 := Dyadic.scaled_eq_zero_iff.mpr zero
    unfold value
    rw [none]
    split <;> rfl
  · right
    have unit : -1074 ≤ d.unitExponent := by
      unfold unitExponent
      split <;> omega
    refine ⟨?_, ?_⟩
    · rw [signed, magnitude, Dyadic.magnitude_scaled zero]
      omega
    · rw [signed]
      exact magnitude_le_of_pattern pattern

/-- **A number from a script is in the range**, also after rounding. -/
theorem Number.ofBinary64_inRange {d : Binary64} {x : Number} (finite : ofBinary64 d = .ok x)
    (ctx : Context) : (x.roundTo ctx).InRange := by
  have wide : 1074 ≤ maxMagnitude ∧ 1026 ≤ maxMagnitude := by decide
  unfold ofBinary64 at finite
  split at finite
  · next within =>
    rw [← Except.ok.inj finite]
    refine roundTo_inRange ((Binary64.magnitude_value within).imp_right fun small => ?_) ctx
    rw [magnitude_mk]
    omega
  · cases finite

/-! ### Built-in functions and constants -/

/-- A few units are in the range. -/
theorem Number.inRange_of_between {x : Number}
    (between : 1 / 4 ≤ x.value.toRat ∧ x.value.toRat ≤ 8) : x.InRange := by
  have size : x.value.abs.toRat = x.value.toRat := by
    rw [Dyadic.toRat_abs, abs_of_nonneg (by linarith)]
  have below : (2 : Rat) ^ (-(maxMagnitude : Int) - 1) ≤ 2 ^ (-2 : Int) :=
    zpow_le_zpow_right₀ one_le_two (by decide)
  have above : (2 : Rat) ^ (4 : Int) ≤ 2 ^ (maxMagnitude : Int) :=
    zpow_le_zpow_right₀ one_le_two (by decide)
  have quarter : (2 : Rat) ^ (-2 : Int) = 1 / 4 := by norm_num
  have sixteen : (8 : Rat) < 2 ^ (4 : Int) := by norm_num
  rw [quarter] at below
  rw [inRange_iff, size]
  exact .inr ⟨le_trans below between.1,
    lt_of_le_of_lt between.2 (lt_of_lt_of_le sixteen above)⟩

theorem constant?_inRange {name : String} {ctx : Context} {x : Number}
    (found : constant? name ctx = some x) : x.InRange := by
  unfold constant? at found
  split at found
  · rw [← Option.some.inj found]
    exact Number.inRange_of_between (Number.pi_between ctx)
  · rw [← Option.some.inj found]
    exact Number.inRange_of_between (Number.e_between ctx)
  · cases found

namespace Builtin

theorem hypot_inRange {x y z : Number} {ctx : Context} (measured : hypot x y ctx = .ok z) :
    z.InRange := by
  obtain ⟨a, squared, rest⟩ := bind_eq_ok.mp measured
  obtain ⟨b, squared', rooted⟩ := bind_eq_ok.mp rest
  obtain ⟨above, within⟩ := Number.square_spec squared
  obtain ⟨above', within'⟩ := Number.square_spec squared'
  exact Number.sqrt_inRange_of_le
    (Dyadic.magnitude_sum (Number.positive_bits _) _ above above' within within') rooted

/-- The functions whose results are not checked. -/
def unchecked : List String :=
  ["ln", "log", "log10", "log2", "floor", "ceil", "round", "trunc", "sin", "cos", "tan", "asin",
    "acos", "atan", "tanh", "min", "max"]

/-- Whether every result of a function for arguments in the range is in the range too. -/
def KeepsRange (builtin : Builtin) : Prop :=
  ∀ values ctx x, (∀ value ∈ values, value.InRange) →
    builtin.result? values ctx = some (.ok x) → x.InRange

theorem unary_keepsRange {f : Number → Context → Except DomainError Number}
    (each : ∀ x ctx y, x.InRange → f x ctx = .ok y → y.InRange) : (unary f).KeepsRange := by
  intro values ctx y inRange result
  match values with
  | [] => cases result
  | [x] => exact each x ctx y (inRange x List.mem_cons_self) (Option.some.inj result)
  | _ :: _ :: _ => cases result

theorem binary_keepsRange {f : Number → Number → Context → Except DomainError Number}
    (each : ∀ x y ctx z, f x y ctx = .ok z → z.InRange) : (binary f).KeepsRange := by
  intro values ctx z _ result
  match values with
  | [] => cases result
  | [_] => cases result
  | [x, y] => exact each x y ctx z (Option.some.inj result)
  | _ :: _ :: _ :: _ => cases result

theorem checked_table : table.filter (fun entry => entry.1 ∉ unchecked) =
    [("abs", total fun x _ => x.abs), ("sqrt", unary Number.sqrt), ("exp", unary Number.exp),
      ("sinh", unary Number.sinh), ("cosh", unary Number.cosh), ("pow", binary Number.pow),
      ("hypot", binary hypot)] := by
  rfl

/-- **Every other built-in function stays in the range.** -/
theorem keepsRange {name : String} {builtin : Builtin} (found : ofName? name = some builtin)
    (checked : name ∉ unchecked) : builtin.KeepsRange := by
  have each : ∀ entry ∈ table.filter (fun entry => entry.1 ∉ unchecked),
      entry.2.KeepsRange := by
    rw [checked_table]
    simp only [List.forall_mem_cons]
    refine ⟨unary_keepsRange fun x _ y inRange applied => ?_,
      unary_keepsRange fun x ctx y => Number.sqrt_inRange,
      unary_keepsRange fun x ctx y _ => Number.exp_inRange,
      unary_keepsRange fun x ctx y _ => Number.sinh_inRange,
      unary_keepsRange fun x ctx y _ => Number.cosh_inRange,
      binary_keepsRange fun x y ctx z => Number.pow_inRange,
      binary_keepsRange fun x y ctx z => hypot_inRange, nofun⟩
    rw [← Except.ok.inj applied]
    exact Number.abs_inRange inRange
  obtain ⟨before, after, equal, -⟩ := List.lookup_eq_some_iff.mp found
  have listed : (name, builtin) ∈ table := by
    rw [equal]
    exact List.mem_append_right before List.mem_cons_self
  exact each (name, builtin) (List.mem_filter.mpr ⟨listed, decide_eq_true checked⟩)

end Builtin

end Reckoner
