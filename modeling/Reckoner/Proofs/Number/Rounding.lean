/-
What the directions of rounding choose, said on rationals.

A direction is given an integer and a description of what the integer leaves out. Which integer it
should choose is a property of the rational alone.

* `Rounding.Chooses` — the integer that a direction chooses for a rational, by floor and ceiling, or
  by the distance and the parity of ties; `Rounding.Chooses.unique`: there is one at most.
* `Rest.LeftOut` — whether a rest describes the difference of a rational and an integer.
* `Rounding.chooses_round` — **an integer with a description of what it leaves out is rounded to the
  integer that the direction chooses**.
* `Rounding.chooses_ratio` — the same of a fraction, from its quotient toward zero.
-/

import Reckoner.Number.Rounding

namespace Reckoner

/-! ### The integer that a direction chooses -/

/-- Whether a direction chooses an integer for a rational. The nearest integer is the even one if
there are two. -/
def Rounding.Chooses (mode : Rounding) (q : Rat) (n : Int) : Prop :=
  match mode with
  | .down => n = q.floor
  | .up => n = q.ceil
  | .towardZero => n = if q < 0 then q.ceil else q.floor
  | .awayFromZero => n = if q < 0 then q.floor else q.ceil
  | .nearest => 2 * (q - n).abs ≤ 1 ∧ (2 * (q - n).abs = 1 → n % 2 = 0)

/-- Two neighbours at one half from a rational are not both even. -/
theorem not_chooses_nearest_succ {q : Rat} {n : Int} (first : Rounding.nearest.Chooses q n) :
    ¬Rounding.nearest.Chooses q (n + 1) := by
  intro second
  obtain ⟨near, even⟩ := first
  obtain ⟨near', even'⟩ := second
  have above : ((n + 1 : Int) : Rat) = n + 1 := Rat.intCast_add n 1
  rw [above] at near' even'
  have tie : 2 * (q - n).abs = 1 ∧ 2 * (q - (n + 1)).abs = 1 := by
    unfold Rat.abs at near near' ⊢
    split at near <;> split at near' <;> grind
  have lower := even tie.1
  have upper := even' tie.2
  omega

/-- A direction chooses at most one integer. -/
theorem Rounding.Chooses.unique {mode : Rounding} {q : Rat} {m n : Int}
    (first : mode.Chooses q m) (second : mode.Chooses q n) : m = n := by
  cases mode with
  | down => exact Eq.trans first (Eq.symm second)
  | up => exact Eq.trans first (Eq.symm second)
  | towardZero => exact Eq.trans first (Eq.symm second)
  | awayFromZero => exact Eq.trans first (Eq.symm second)
  | nearest =>
    have close {a b : Int} (near : Rounding.nearest.Chooses q a)
        (near' : Rounding.nearest.Chooses q b) : a ≤ b + 1 := by
      have bound : (a : Rat) ≤ b + (1 : Int) := by
        have distances := And.intro near.1 near'.1
        unfold Rat.abs at distances
        grind
      rw [← Rat.intCast_add] at bound
      exact Rat.intCast_le_intCast.mp bound
    have upper := close first second
    have lower := close second first
    by_cases above : m = n + 1
    · rw [above] at first
      exact absurd first (not_chooses_nearest_succ second)
    · by_cases below : n = m + 1
      · rw [below] at second
        exact absurd second (not_chooses_nearest_succ first)
      · omega

theorem floor_eq_of_between {q : Rat} {n : Int} (lower : (n : Rat) ≤ q)
    (upper : q < (n + 1 : Int)) : q.floor = n := by
  have least : n ≤ q.floor := Rat.le_floor_iff.mpr lower
  have most : q.floor < n + 1 := Rat.floor_lt_iff.mpr upper
  omega

theorem ceil_eq_of_between {q : Rat} {n : Int} (lower : (n : Rat) < q)
    (upper : q ≤ (n + 1 : Int)) : q.ceil = n + 1 := by
  have most : q.ceil ≤ n + 1 := Rat.ceil_le_iff.mpr upper
  have least : n < q.ceil := Rat.lt_ceil_iff.mpr lower
  omega

/-! ### What an integer leaves out -/

/-- Whether a size compares with one half in a given way. -/
def AgainstHalf (size : Rat) : Ordering → Prop
  | .lt => 2 * size < 1
  | .eq => 2 * size = 1
  | .gt => 1 < 2 * size

/-- Whether a rest describes a difference. -/
def Rest.LeftOut (difference : Rat) : Rest → Prop
  | .zero => difference = 0
  | .fraction negative againstHalf =>
    let size := if negative then -difference else difference
    0 < size ∧ size < 1 ∧ AgainstHalf size againstHalf

namespace Rounding

variable {q : Rat} {h : Int}

/-- An integer is chosen for itself. -/
theorem chooses_self (mode : Rounding) (n : Int) : mode.Chooses n n := by
  cases mode with
  | down => exact (Rat.floor_intCast n).symm
  | up => exact (Rat.ceil_intCast n).symm
  | towardZero => simp [Chooses]
  | awayFromZero => simp [Chooses]
  | nearest =>
    have nothing : 2 * ((n : Rat) - n).abs = 0 := by
      rw [Rat.sub_self, Rat.abs_zero, Rat.mul_zero]
    unfold Chooses
    rw [nothing]
    exact ⟨by decide, fun half => absurd half (by decide)⟩

/-- A rational strictly between two neighbours is below zero with the lower one. -/
theorem neg_iff_of_between (above : (h : Rat) < q) (below : q < (h + 1 : Int)) :
    q < 0 ↔ h < 0 := by
  have floor : q.floor = h := floor_eq_of_between (Rat.le_of_lt above) below
  rw [← Rat.intCast_zero, ← Rat.floor_lt_iff, floor]

/-- A fraction below an integer is the opposite fraction above the integer before it. -/
theorem round_fraction_true (mode : Rounding) (h : Int) (againstHalf : Ordering) :
    mode.round h (.fraction true againstHalf) =
      mode.round (h - 1) (.fraction false againstHalf.swap) := by
  cases mode with
  | up => simp [round]
  | down => simp [round]
  | towardZero =>
    by_cases positive : 0 < h
    · simp [round, positive, show ¬h - 1 < 0 by omega]
    · simp [round, positive, show h - 1 < 0 by omega]
  | awayFromZero =>
    by_cases positive : 0 < h
    · simp [round, show ¬h ≤ 0 by omega]
      omega
    · simp [round, show h ≤ 0 by omega]
      omega
  | nearest =>
    cases againstHalf with
    | lt => simp [round]
    | gt => simp [round]
    | eq =>
      by_cases even : h % 2 = 0
      · simp [round, even, show (h - 1) % 2 ≠ 0 by omega]
      · simp [round, even, show (h - 1) % 2 = 0 by omega]

/-- The nearest of two neighbours, by the distance from the lower one. -/
theorem chooses_nearest {againstHalf : Ordering} (above : (h : Rat) < q)
    (below : q < (h + 1 : Int)) (half : AgainstHalf (q - h) againstHalf) :
    nearest.Chooses q (nearest.round h (.fraction false againstHalf)) := by
  have next : ((h + 1 : Int) : Rat) = h + 1 := Rat.intCast_add h 1
  rw [next] at below
  have here : (q - h).abs = q - h := Rat.abs_of_nonneg (by grind)
  have there : (q - (h + 1)).abs = 1 - (q - h) := by
    rw [Rat.abs_of_nonpos (by grind)]
    grind
  cases againstHalf with
  | lt =>
    have small : 2 * (q - h) < 1 := half
    simp [Chooses, round, here]
    grind
  | gt =>
    have large : 1 < 2 * (q - h) := half
    simp [Chooses, round, next, there]
    grind
  | eq =>
    have tie : 2 * (q - h) = 1 := half
    by_cases even : h % 2 = 0
    · simp [Chooses, round, even, here]
      grind
    · have even' : (h + 1) % 2 = 0 := by omega
      simp [Chooses, round, even, even', next, there]
      grind

/-- A fraction above an integer is rounded as the direction chooses. -/
theorem chooses_round_above (mode : Rounding) {againstHalf : Ordering} (above : (h : Rat) < q)
    (below : q < (h + 1 : Int)) (half : AgainstHalf (q - h) againstHalf) :
    mode.Chooses q (mode.round h (.fraction false againstHalf)) := by
  have floor : q.floor = h := floor_eq_of_between (Rat.le_of_lt above) below
  have ceil : q.ceil = h + 1 := ceil_eq_of_between above (Rat.le_of_lt below)
  have side := neg_iff_of_between above below
  cases mode with
  | down => exact floor.symm
  | up => exact ceil.symm
  | towardZero =>
    by_cases negative : h < 0
    · simp [Chooses, round, side.mpr negative, negative, ceil]
    · simp [Chooses, round, mt side.mp negative, negative, floor]
  | awayFromZero =>
    by_cases negative : h < 0
    · simp [Chooses, round, side.mpr negative, Int.not_le.mpr negative, floor]
    · simp [Chooses, round, mt side.mp negative, Int.not_lt.mp negative, ceil]
  | nearest => exact chooses_nearest above below half

/-- A size seen from the other end of an interval of length one. -/
theorem againstHalf_swap {size : Rat} {againstHalf : Ordering} (half : AgainstHalf size againstHalf) :
    AgainstHalf (1 - size) againstHalf.swap := by
  cases againstHalf with
  | lt =>
    show 1 < 2 * (1 - size)
    have small : 2 * size < 1 := half
    grind
  | eq =>
    show 2 * (1 - size) = 1
    have same : 2 * size = 1 := half
    grind
  | gt =>
    show 2 * (1 - size) < 1
    have large : 1 < 2 * size := half
    grind

/-- **An integer with a description of what it leaves out is rounded to the integer that the
direction chooses.** -/
theorem chooses_round (mode : Rounding) {rest : Rest} (left : rest.LeftOut (q - h)) :
    mode.Chooses q (mode.round h rest) := by
  cases rest with
  | zero =>
    have same : q = h := by
      have nothing : q - h = 0 := left
      grind
    rw [same]
    exact chooses_self mode h
  | fraction negative againstHalf =>
    obtain ⟨positive, small, half⟩ := left
    cases negative with
    | false =>
      simp only [Bool.false_eq_true, if_false] at positive small half
      refine chooses_round_above mode ?_ ?_ half
      · grind
      · rw [Rat.intCast_add]
        grind
    | true =>
      simp only [if_true] at positive small half
      have before : ((h - 1 : Int) : Rat) = h - 1 := Rat.intCast_sub h 1
      have size : 1 - -(q - h) = q - (h - 1 : Int) := by grind
      rw [round_fraction_true]
      refine chooses_round_above mode ?_ ?_ ?_
      · grind
      · rw [Int.sub_add_cancel]
        grind
      · rw [← size]
        exact againstHalf_swap half

end Rounding

/-! ### Fractions -/

/-- The comparison of twice a numerator with its divisor compares the fraction with one half. -/
theorem againstHalf_compare (n : Nat) {d : Nat} (positive : 0 < d) :
    AgainstHalf ((n : Rat) / d) (compare (2 * n) d) := by
  have divisor : (0 : Rat) < d := Rat.natCast_pos.mpr positive
  have product : (n : Rat) / d * d = n := Rat.div_mul_cancel (Rat.ne_of_gt divisor)
  have twice : ((2 * n : Nat) : Rat) = 2 * n := Rat.natCast_mul 2 n
  cases order : compare (2 * n) d with
  | lt =>
    have less := Rat.natCast_lt_natCast.mpr (Nat.compare_eq_lt.mp order)
    rw [twice, ← product] at less
    show 2 * ((n : Rat) / d) < 1
    refine Rat.lt_of_mul_lt_mul_right ?_ (Rat.le_of_lt divisor)
    rw [Rat.one_mul, Rat.mul_assoc]
    exact less
  | eq =>
    have equal := congrArg (Nat.cast (R := Rat)) (Nat.compare_eq_eq.mp order)
    rw [twice] at equal
    show 2 * ((n : Rat) / d) = 1
    grind
  | gt =>
    have more := Rat.natCast_lt_natCast.mpr (Nat.compare_eq_gt.mp order)
    rw [twice, ← product] at more
    show 1 < 2 * ((n : Rat) / d)
    refine Rat.lt_of_mul_lt_mul_right ?_ (Rat.le_of_lt divisor)
    rw [Rat.one_mul, Rat.mul_assoc]
    exact more

/-- The rest of a numerator describes its part of the divisor. -/
theorem Rest.leftOut_ofRatio {r : Int} {d : Nat} (small : r.natAbs < d) :
    (Rest.ofRatio r d).LeftOut ((r : Rat) / d) := by
  have positive : 0 < d := Nat.lt_of_le_of_lt (Nat.zero_le _) small
  have divisor : (0 : Rat) < d := Rat.natCast_pos.mpr positive
  unfold ofRatio
  by_cases zero : r = 0
  · rw [if_pos zero, zero]
    show ((0 : Int) : Rat) / d = 0
    rw [Rat.intCast_zero, Rat.div_def, Rat.zero_mul]
  · rw [if_neg zero]
    have size : (if decide (r < 0) = true then -((r : Rat) / d) else (r : Rat) / d) =
        (r.natAbs : Rat) / d := by
      rw [← Rat.intCast_natCast r.natAbs, Rat.div_def, Rat.div_def]
      by_cases negative : r < 0
      · have opposite : (r.natAbs : Int) = -r := by omega
        rw [if_pos (decide_eq_true negative), opposite, Rat.intCast_neg, Rat.neg_mul]
      · have same : (r.natAbs : Int) = r := by omega
        rw [if_neg (by simpa using negative), same]
    unfold LeftOut
    simp only [size]
    refine ⟨?_, ?_, againstHalf_compare r.natAbs positive⟩
    · refine (Rat.lt_div_iff divisor).mpr ?_
      rw [Rat.zero_mul]
      exact Rat.natCast_pos.mpr (Int.natAbs_pos.mpr zero)
    · refine (Rat.div_lt_iff divisor).mpr ?_
      rw [Rat.one_mul]
      exact Rat.natCast_lt_natCast.mpr small

/-- **A fraction is rounded as the direction chooses**, from its quotient toward zero. -/
theorem Rounding.chooses_ratio (mode : Rounding) (n : Int) {d : Nat} (positive : 0 < d) :
    mode.Chooses ((n : Rat) / d) (mode.round (n.tdiv d) (.ofRatio (n.tmod d) d)) := by
  have divisor : (d : Rat) ≠ 0 := Rat.ne_of_gt (Rat.natCast_pos.mpr positive)
  have parts : (n : Rat) = d * (n.tdiv d : Int) + (n.tmod d : Int) := by
    rw [← Rat.intCast_natCast, ← Rat.intCast_mul, ← Rat.intCast_add, Int.mul_tdiv_add_tmod]
  have difference : (n : Rat) / d - (n.tdiv d : Int) = (n.tmod d : Int) / (d : Rat) := by
    grind
  have small : (n.tmod d).natAbs < d := by
    rw [Int.natAbs_tmod]
    exact Nat.mod_lt _ positive
  refine chooses_round mode ?_
  rw [difference]
  exact Rest.leftOut_ofRatio small

end Reckoner
