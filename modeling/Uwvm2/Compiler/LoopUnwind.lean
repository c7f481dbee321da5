import Mathlib

/-!
# The period of an unwound loop

A range of stack-top registers is a ring that a cursor goes round. One pass through a loop
moves each cursor by the distance from the beginning of its ring to where it is now.
`loop_unwind_currpos_period` is the number of passes after which all cursors are back.
-/

namespace Uwvm2.Compiler

open Function

def sizeMax : Nat := 2 ^ 64 - 1

structure Ring where
  beginPos : Nat
  endPos : Nat
  currPos : Nat

def Ring.enabled (r : Ring) : Bool := r.beginPos ≠ r.endPos

structure StacktopRings where
  i32 : Ring
  i64 : Ring
  f32 : Ring
  f64 : Ring
  v128 : Ring

def StacktopRings.toList (s : StacktopRings) : List Ring := [s.i32, s.i64, s.f32, s.f64, s.v128]

def gcdLoop : Nat → Nat → Nat → Nat
  | 0, a, _ => a
  | fuel + 1, a, b => if b = 0 then a else gcdLoop fuel b (a % b)

/-- Every round makes `b` smaller. -/
def loopUnwindGcdSize (a b : Nat) : Nat := gcdLoop b a b

def loopUnwindLcmSize (a b : Nat) : Nat :=
  if a = 0 ∨ b = 0 then 0
  else
    let div := a / loopUnwindGcdSize a b
    if sizeMax / b < div then sizeMax else div * b

def addRange (period : Nat) (r : Ring) : Nat :=
  if ¬ r.enabled ∨ r.currPos = sizeMax ∨ r.endPos ≤ r.beginPos then period
  else
    let ringSize := r.endPos - r.beginPos
    -- the sum and the difference wrap around
    let delta := ((r.currPos + ringSize) % 2 ^ 64 + 2 ^ 64 - r.beginPos) % 2 ^ 64 % ringSize
    if delta = 0 then period
    else loopUnwindLcmSize period (ringSize / loopUnwindGcdSize ringSize delta)

def loopUnwindCurrposPeriod (s : StacktopRings) : Nat :=
  if ¬ s.toList.any Ring.enabled then 1 else s.toList.foldl addRange 1

-- The period of one ring

theorem gcdLoop_eq (h : b ≤ fuel) : gcdLoop fuel a b = a.gcd b := by
  induction fuel generalizing a b with
  | zero => rw [Nat.le_zero.mp h, gcdLoop, Nat.gcd_zero_right]
  | succ fuel ih =>
    rw [gcdLoop]
    split
    case isTrue hb => rw [hb, Nat.gcd_zero_right]
    case isFalse hb =>
      have hlt := Nat.mod_lt a (Nat.pos_of_ne_zero hb)
      rw [ih (by omega), Nat.gcd_comm, ← Nat.gcd_rec, Nat.gcd_comm]

/-- The least common multiple, or the largest size if it does not fit. -/
theorem loopUnwindLcmSize_eq (ha : 0 < a) (hb : 0 < b) :
    loopUnwindLcmSize a b = min sizeMax (a.lcm b) := by
  have hlcm : a / a.gcd b * b = a.lcm b := Nat.div_mul_right_comm (Nat.gcd_dvd_left a b) b
  rw [loopUnwindLcmSize, if_neg (by omega), loopUnwindGcdSize, gcdLoop_eq le_rfl]
  simp only [Nat.div_lt_iff_lt_mul hb, hlcm]
  split <;> omega

/-- The positions are `size_t`, the ring is smaller than half of these, and the cursor is in it. -/
abbrev Ring.Fits (r : Ring) : Prop :=
  r.endPos ≤ sizeMax ∧ r.endPos - r.beginPos < 2 ^ 63 ∧ r.beginPos ≤ r.currPos ∧
    r.currPos < r.endPos

/-- A position moves round the ring by the distance from its beginning to the cursor. -/
def Ring.move (r : Ring) (pos : Nat) : Nat :=
  r.beginPos + (pos - r.beginPos + (r.currPos - r.beginPos)) % (r.endPos - r.beginPos)

def Ring.Back (r : Ring) (n : Nat) : Prop := r.move^[n] r.beginPos = r.beginPos

theorem Ring.back_iff (r : Ring) (n : Nat) :
    r.Back n ↔ r.endPos - r.beginPos ∣ n * (r.currPos - r.beginPos) := by
  have hmove : r.move^[n] r.beginPos =
      r.beginPos + n * (r.currPos - r.beginPos) % (r.endPos - r.beginPos) := by
    induction n with
    | zero => simp
    | succ n ih =>
      rw [iterate_succ_apply', ih, move, Nat.add_sub_cancel_left, Nat.mod_add_mod, Nat.succ_mul]
  rw [Back, hmove, Nat.dvd_iff_mod_eq_zero]
  omega

theorem dvd_mul_iff (h : 0 < size) : size ∣ n * delta ↔ size / size.gcd delta ∣ n := by
  rw [Nat.div_dvd_iff_dvd_mul (Nat.gcd_dvd_left _ _) (Nat.gcd_pos_of_pos_left _ h)]
  constructor
  · intro hdvd
    rw [Nat.mul_comm, ← Nat.gcd_mul_left]
    exact Nat.dvd_gcd (Nat.dvd_mul_left _ _) hdvd
  · intro hdvd
    rw [Nat.mul_comm]
    exact hdvd.trans (Nat.mul_dvd_mul_right (Nat.gcd_dvd_right _ _) _)

-- All rings

theorem min_lcm_min (hp : 0 < p) (hq : 0 < q) :
    min sizeMax ((min sizeMax p).lcm q) = min sizeMax (p.lcm q) := by
  rcases Nat.le_total p sizeMax with hle | hle
  · rw [min_eq_right hle]
  · have hmax : sizeMax ≤ sizeMax.lcm q :=
      Nat.le_of_dvd (Nat.lcm_pos (by decide) hq) (Nat.dvd_lcm_left _ _)
    have hlcm : p ≤ p.lcm q := Nat.le_of_dvd (Nat.lcm_pos hp hq) (Nat.dvd_lcm_left _ _)
    rw [min_eq_left hle, min_eq_left hmax, min_eq_left (hle.trans hlcm)]

theorem addRange_eq (hr : r.enabled = true → r.Fits) (hp : 0 < p) :
    ∃ q, 0 < q ∧ addRange (min sizeMax p) r = min sizeMax q ∧
      ∀ n, q ∣ n ↔ p ∣ n ∧ (r.enabled = true → r.Back n) := by
  cases he : r.enabled with
  | false => exact ⟨p, hp, by simp [addRange, he], by simp⟩
  | true =>
    obtain ⟨hend, hhalf, hbegin, hcurr⟩ := hr he
    have hguard : ¬ (¬ r.enabled ∨ r.currPos = sizeMax ∨ r.endPos ≤ r.beginPos) := by
      simp only [he, not_true_eq_false, false_or]
      omega
    have hdelta : ((r.currPos + (r.endPos - r.beginPos)) % 2 ^ 64 + 2 ^ 64 - r.beginPos) % 2 ^ 64 %
        (r.endPos - r.beginPos) = r.currPos - r.beginPos := by
      have hwrap : ((r.currPos + (r.endPos - r.beginPos)) % 2 ^ 64 + 2 ^ 64 - r.beginPos) % 2 ^ 64 =
          r.currPos - r.beginPos + (r.endPos - r.beginPos) := by
        unfold sizeMax at hend
        omega
      rw [hwrap, Nat.add_mod_right, Nat.mod_eq_of_lt (by omega)]
    have hsize : 0 < r.endPos - r.beginPos := by omega
    simp only [addRange, hguard, if_false, hdelta, Ring.back_iff, dvd_mul_iff hsize, true_imp_iff,
      loopUnwindGcdSize, gcdLoop_eq le_rfl]
    split
    case isTrue hzero => exact ⟨p, hp, rfl, by simp [hzero, hsize]⟩
    case isFalse =>
      have hq : 0 < (r.endPos - r.beginPos) / (r.endPos - r.beginPos).gcd
          (r.currPos - r.beginPos) :=
        Nat.div_gcd_pos_of_pos_left _ hsize
      refine ⟨_, Nat.lcm_pos hp hq, ?_, fun n => Nat.lcm_dvd_iff⟩
      rw [loopUnwindLcmSize_eq (lt_min (by decide) hp) hq, min_lcm_min hp hq]

theorem foldl_addRange {rings : List Ring} (hr : ∀ r ∈ rings, r.enabled = true → r.Fits)
    (hp : 0 < p) :
    ∃ q, 0 < q ∧ rings.foldl addRange (min sizeMax p) = min sizeMax q ∧
      ∀ n, q ∣ n ↔ p ∣ n ∧ ∀ r ∈ rings, r.enabled = true → r.Back n := by
  induction rings generalizing p with
  | nil => exact ⟨p, hp, rfl, by simp⟩
  | cons r rings ih =>
    obtain ⟨p', hp', hadd, hback⟩ := addRange_eq (hr r List.mem_cons_self) hp
    obtain ⟨q, hq, hfold, hall⟩ := ih (fun r' h => hr r' (List.mem_cons_of_mem _ h)) hp'
    refine ⟨q, hq, by rw [List.foldl_cons, hadd, hfold], fun n => ?_⟩
    rw [hall, hback, List.forall_mem_cons, and_assoc]

/-- The result is the least positive number of passes after which every ring that is in use is
back at its beginning, or the largest size if that number does not fit. -/
theorem loopUnwindCurrposPeriod_isLeast (s : StacktopRings)
    (hs : ∀ r ∈ s.toList, r.enabled = true → r.Fits) :
    ∃ least, IsLeast {n | 0 < n ∧ ∀ r ∈ s.toList, r.enabled = true → r.Back n} least ∧
      loopUnwindCurrposPeriod s = if least ≤ sizeMax then least else sizeMax := by
  obtain ⟨q, hq, hfold, hback⟩ := foldl_addRange hs Nat.one_pos
  have hiff (n : Nat) : (∀ r ∈ s.toList, r.enabled = true → r.Back n) ↔ q ∣ n := by simp [hback]
  refine ⟨q, ⟨⟨hq, (hiff q).mpr dvd_rfl⟩, fun n hn => Nat.le_of_dvd hn.1 ((hiff n).mp hn.2)⟩, ?_⟩
  rw [min_eq_right (by decide)] at hfold
  rw [loopUnwindCurrposPeriod, hfold]
  split
  case isTrue hnone =>
    have hone : q ∣ 1 := (hiff 1).mp fun r hr he => absurd (List.any_eq_true.mpr ⟨r, hr, he⟩) hnone
    rw [Nat.dvd_one.mp hone]
    rfl
  case isFalse => split <;> omega

def twoRings : StacktopRings := ⟨⟨3, 9, 7⟩, ⟨3, 9, 7⟩, ⟨9, 13, 10⟩, ⟨9, 13, 10⟩, ⟨0, 0, 0⟩⟩

theorem loopUnwindCurrposPeriod_twoRings : loopUnwindCurrposPeriod twoRings = 12 ∧
      ∃ least, IsLeast {n | 0 < n ∧ ∀ r ∈ twoRings.toList, r.enabled = true → r.Back n} least ∧
        loopUnwindCurrposPeriod twoRings = if least ≤ sizeMax then least else sizeMax :=
  ⟨by decide, loopUnwindCurrposPeriod_isLeast twoRings (by decide)⟩

end Uwvm2.Compiler
