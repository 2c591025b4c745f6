/-
Long arithmetic on machine words.

Three textbook algorithms, on words of any width: the product of two words from
the products of their halves, the restoring division that shifts one bit of the
numerator in at a time, and the digit-by-digit square root.  Each is stated on
words as a program computes it, and specified by the natural numbers behind the
words.
-/
import Mathlib.Data.Nat.Sqrt
import Mathlib.Tactic.Ring
import Mathlib.Tactic.NormNum

namespace RunD.Word

variable {w : ℕ}

/-! ### Words and their numbers -/

/-- The low `h` bits. -/
def lowBits (h : ℕ) (x : BitVec w) : BitVec w := x &&& BitVec.ofNat w (2 ^ h - 1)

@[simp] theorem toNat_lowBits {h : ℕ} (hw : h ≤ w) (x : BitVec w) :
    (lowBits h x).toNat = x.toNat % 2 ^ h := by
  have hlt : 2 ^ h - 1 < 2 ^ w :=
    lt_of_lt_of_le (Nat.sub_one_lt (Nat.two_pow_pos h).ne') (Nat.pow_le_pow_right two_pos hw)
  rw [lowBits, BitVec.toNat_and, BitVec.toNat_ofNat, Nat.mod_eq_of_lt hlt,
    Nat.and_two_pow_sub_one_eq_mod]

theorem toNat_shiftRight (x : BitVec w) (h : ℕ) : (x >>> h).toNat = x.toNat / 2 ^ h := by
  rw [BitVec.toNat_ushiftRight, Nat.shiftRight_eq_div_pow]

theorem toNat_add_of_lt {x y : BitVec w} (h : x.toNat + y.toNat < 2 ^ w) :
    (x + y).toNat = x.toNat + y.toNat := by
  rw [BitVec.toNat_add, Nat.mod_eq_of_lt h]

theorem toNat_mul_of_lt {x y : BitVec w} (h : x.toNat * y.toNat < 2 ^ w) :
    (x * y).toNat = x.toNat * y.toNat := by
  rw [BitVec.toNat_mul, Nat.mod_eq_of_lt h]

theorem toNat_sub_of_le {x y : BitVec w} (h : y.toNat ≤ x.toNat) :
    (x - y).toNat = x.toNat - y.toNat :=
  BitVec.toNat_sub_of_le (BitVec.le_def.mpr h)

/-- A bit is shifted in from the right. -/
theorem toNat_shiftIn {x b : BitVec w} (hw : 0 < w) (h : 2 * x.toNat + 1 < 2 ^ w) :
    (x <<< 1 ||| (b &&& 1#w)).toNat = 2 * x.toNat + b.toNat % 2 := by
  have hone : (1 : ℕ) % 2 ^ w = 1 := Nat.mod_eq_of_lt (Nat.one_lt_two_pow hw.ne')
  have hshift : (x <<< 1).toNat = 2 * x.toNat := by
    rw [BitVec.toNat_shiftLeft, Nat.shiftLeft_eq, pow_one, Nat.mul_comm,
      Nat.mod_eq_of_lt (lt_of_le_of_lt (Nat.le_succ _) h)]
  rw [BitVec.toNat_or, hshift, BitVec.toNat_and, BitVec.toNat_ofNat, hone, Nat.and_one_is_mod]
  -- an even number and a bit have no place in common
  have hor := Nat.two_pow_add_eq_or_of_lt (i := 1) (b := b.toNat % 2) (by omega) x.toNat
  rw [pow_one] at hor
  exact hor.symm

/-! ### Products from halves -/

/-- The product of two numbers of two digits each, from the products of their digits: the high
part, the middle digit and the low one. -/
theorem digit_product {B a b c d : ℕ} :
    (a * B + b) * (c * B + d) =
      (a * c + b * c / B + a * d / B + (b * d / B + b * c % B + a * d % B) / B) * (B * B) +
        (b * d / B + b * c % B + a * d % B) % B * B + b * d % B := by
  have h0 := Nat.div_add_mod (b * d) B
  have h1 := Nat.div_add_mod (b * c) B
  have h2 := Nat.div_add_mod (a * d) B
  set carry := b * d / B + b * c % B + a * d % B with hcarry
  have h3 := Nat.div_add_mod carry B
  calc (a * B + b) * (c * B + d)
      = a * c * (B * B) + (b * c) * B + (a * d) * B + b * d := by ring
    _ = a * c * (B * B) + (B * (b * c / B) + b * c % B) * B +
          (B * (a * d / B) + a * d % B) * B + (B * (b * d / B) + b * d % B) := by
        rw [h0, h1, h2]
    _ = (a * c + b * c / B + a * d / B) * (B * B) + carry * B + b * d % B := by
        rw [hcarry]
        ring
    _ = (a * c + b * c / B + a * d / B) * (B * B) + (B * (carry / B) + carry % B) * B +
          b * d % B := by
        rw [h3]
    _ = _ := by ring

/-- The middle sum of a product from halves. -/
def limbCarry (h : ℕ) (x y : BitVec w) : BitVec w :=
  (lowBits h x * lowBits h y) >>> h + lowBits h (lowBits h x * (y >>> h)) +
    lowBits h ((x >>> h) * lowBits h y)

/-- The high word of a product from halves. -/
def limbHigh (h : ℕ) (x y : BitVec w) : BitVec w :=
  (x >>> h) * (y >>> h) + (lowBits h x * (y >>> h)) >>> h + ((x >>> h) * lowBits h y) >>> h +
    limbCarry h x y >>> h

section Halves

variable {h : ℕ} (hw : w = 2 * h) (hh : 2 ≤ h) (x y : BitVec w)
include hw hh

/-- What the words of a product from halves are. -/
theorem toNat_limbs :
    (limbHigh h x y).toNat = x.toNat * y.toNat / 2 ^ w ∧
      (limbCarry h x y).toNat % 2 ^ h = x.toNat * y.toNat / 2 ^ h % 2 ^ h := by
  have hle : h ≤ w := by omega
  set B := 2 ^ h with hB
  have hpos : 0 < B := Nat.two_pow_pos h
  have hsquare : 2 ^ w = B * B := by rw [hw, two_mul, pow_add]
  have hfour : 4 ≤ B := (Nat.pow_le_pow_right two_pos hh : 2 ^ 2 ≤ 2 ^ h)
  -- the four digits
  have ha : x.toNat / B < B := Nat.div_lt_of_lt_mul (hsquare ▸ x.isLt)
  have hc : y.toNat / B < B := Nat.div_lt_of_lt_mul (hsquare ▸ y.isLt)
  have hb : x.toNat % B < B := Nat.mod_lt _ hpos
  have hd : y.toNat % B < B := Nat.mod_lt _ hpos
  have hprod : ∀ {u v : ℕ}, u < B → v < B → u * v < 2 ^ w := by
    intro u v hu hv
    rw [hsquare]
    exact Nat.mul_lt_mul'' hu hv
  have hp0 : (lowBits h x * lowBits h y).toNat = x.toNat % B * (y.toNat % B) := by
    rw [toNat_mul_of_lt] <;> rw [toNat_lowBits hle, toNat_lowBits hle]
    exact hprod hb hd
  have hp1 : (lowBits h x * (y >>> h)).toNat = x.toNat % B * (y.toNat / B) := by
    rw [toNat_mul_of_lt] <;> rw [toNat_lowBits hle, toNat_shiftRight]
    exact hprod hb hc
  have hp2 : ((x >>> h) * lowBits h y).toNat = x.toNat / B * (y.toNat % B) := by
    rw [toNat_mul_of_lt] <;> rw [toNat_lowBits hle, toNat_shiftRight]
    exact hprod ha hd
  have hp3 : ((x >>> h) * (y >>> h)).toNat = x.toNat / B * (y.toNat / B) := by
    rw [toNat_mul_of_lt] <;> rw [toNat_shiftRight, toNat_shiftRight]
    exact hprod ha hc
  have hdiv : ∀ {u v : ℕ}, u < B → v < B → u * v / B < B := by
    intro u v hu hv
    exact Nat.div_lt_of_lt_mul (Nat.mul_lt_mul'' hu hv)
  have hthree : 3 * B < 2 ^ w := by
    rw [hsquare]
    exact Nat.mul_lt_mul_of_pos_right (by omega) hpos
  have hcarry : (limbCarry h x y).toNat = x.toNat % B * (y.toNat % B) / B +
      x.toNat % B * (y.toNat / B) % B + x.toNat / B * (y.toNat % B) % B := by
    have h0 := hdiv hb hd
    have h1 : x.toNat % B * (y.toNat / B) % B < B := Nat.mod_lt _ hpos
    have h2 : x.toNat / B * (y.toNat % B) % B < B := Nat.mod_lt _ hpos
    rw [limbCarry, toNat_add_of_lt, toNat_add_of_lt] <;>
      simp only [toNat_shiftRight, toNat_lowBits hle, hp0, hp1, hp2, ← hB]
    · omega
    · rw [toNat_add_of_lt] <;> simp only [toNat_shiftRight, toNat_lowBits hle, hp0, hp1, ← hB] <;>
        omega
  have hsplit := digit_product (B := B) (a := x.toNat / B) (b := x.toNat % B) (c := y.toNat / B)
    (d := y.toNat % B)
  rw [Nat.mul_comm (x.toNat / B) B, Nat.div_add_mod, Nat.mul_comm (y.toNat / B) B,
    Nat.div_add_mod, ← hcarry] at hsplit
  set high := x.toNat / B * (y.toNat / B) + x.toNat % B * (y.toNat / B) / B +
    x.toNat / B * (y.toNat % B) / B + (limbCarry h x y).toNat / B with hhigh
  have hmiddle : (limbCarry h x y).toNat % B < B := Nat.mod_lt _ hpos
  have hlow : x.toNat % B * (y.toNat % B) % B < B := Nat.mod_lt _ hpos
  have hrest : (limbCarry h x y).toNat % B * B + x.toNat % B * (y.toNat % B) % B < B * B := by
    have hle' := Nat.mul_le_mul_right B (Nat.le_sub_one_of_lt hmiddle)
    rw [Nat.sub_mul, one_mul] at hle'
    have hBB : B ≤ B * B := Nat.le_mul_of_pos_left B hpos
    omega
  have hquot : x.toNat * y.toNat / (B * B) = high := by
    rw [hsplit, Nat.add_assoc, Nat.mul_comm high, Nat.mul_add_div (Nat.mul_pos hpos hpos),
      Nat.div_eq_of_lt hrest, Nat.add_zero]
  have hlt : high < 2 ^ w := by
    rw [← hquot, ← hsquare]
    exact Nat.div_lt_of_lt_mul (Nat.mul_lt_mul'' x.isLt y.isLt)
  refine ⟨?_, ?_⟩
  · -- none of the partial sums is above the high word
    have hfirst : ((x >>> h) * (y >>> h) + (lowBits h x * (y >>> h)) >>> h).toNat =
        x.toNat / B * (y.toNat / B) + x.toNat % B * (y.toNat / B) / B := by
      rw [toNat_add_of_lt] <;> rw [toNat_shiftRight, hp3, hp1, ← hB]
      refine lt_of_le_of_lt ?_ hlt
      exact (Nat.le_add_right _ _).trans (Nat.le_add_right _ _)
    have hsecond : ((x >>> h) * (y >>> h) + (lowBits h x * (y >>> h)) >>> h +
          ((x >>> h) * lowBits h y) >>> h).toNat =
        x.toNat / B * (y.toNat / B) + x.toNat % B * (y.toNat / B) / B +
          x.toNat / B * (y.toNat % B) / B := by
      rw [toNat_add_of_lt] <;> rw [hfirst, toNat_shiftRight, hp2, ← hB]
      exact lt_of_le_of_lt (Nat.le_add_right _ _) hlt
    rw [hsquare, hquot, limbHigh, toNat_add_of_lt] <;> rw [hsecond, toNat_shiftRight, ← hB]
    exact hlt
  · have hdigits : x.toNat * y.toNat = (high * B + (limbCarry h x y).toNat % B) * B +
        x.toNat % B * (y.toNat % B) % B := by
      rw [hsplit]
      ring
    rw [hdigits, Nat.mul_comm _ B, Nat.mul_add_div hpos, Nat.div_eq_of_lt hlow, Nat.add_zero,
      Nat.mul_comm high, Nat.mul_add_mod, Nat.mod_mod]

/-- The product shifted down by one bit less than a word: the high word and the top bit of the
middle sum. -/
theorem toNat_limbShift (hfits : x.toNat * y.toNat / 2 ^ (w - 1) < 2 ^ w) :
    (limbHigh h x y <<< 1 ||| ((limbCarry h x y >>> (h - 1)) &&& 1#w)).toNat =
      x.toNat * y.toNat / 2 ^ (w - 1) := by
  obtain ⟨hhigh, hcarry⟩ := toNat_limbs hw hh x y
  set N := x.toNat * y.toNat with hN
  have hsplit : N / 2 ^ w = N / 2 ^ (w - 1) / 2 := by
    rw [Nat.div_div_eq_div_mul, ← pow_succ, Nat.sub_add_cancel (by omega)]
  have hpow : 2 ^ w = 2 * 2 ^ (w - 1) := by
    rw [← pow_succ', Nat.sub_add_cancel (by omega)]
  have hbit : (limbCarry h x y >>> (h - 1)).toNat % 2 = N / 2 ^ (w - 1) % 2 := by
    have hhalf : 2 ^ h = 2 ^ (h - 1) * 2 := by
      rw [← pow_succ, Nat.sub_add_cancel (by omega)]
    rw [toNat_shiftRight, ← Nat.mod_mul_right_div_self, ← hhalf, hcarry]
    nth_rewrite 2 [hhalf]
    rw [Nat.mod_mul_right_div_self, Nat.div_div_eq_div_mul, ← pow_add,
      show h + (h - 1) = w - 1 by omega]
  rw [toNat_shiftIn (by omega) (by rw [hhigh, hsplit, hpow]; omega), hhigh, hbit, hsplit]
  exact Nat.div_add_mod _ 2

end Halves

/-! ### Restoring division -/

/-- The quotient and the remainder of a division on its way. -/
structure DivState (w : ℕ) where
  quotient : BitVec w
  remainder : BitVec w
  deriving DecidableEq, Repr

/-- One bit of the numerator is shifted into the remainder; the denominator is taken off when it
fits, and the quotient gets the bit. -/
def divRound (numerator denominator : BitVec w) (bit : ℕ) (state : DivState w) : DivState w :=
  let remainder := state.remainder <<< 1 ||| ((numerator >>> bit) &&& 1#w)
  if denominator ≤ remainder then
    { quotient := state.quotient ||| BitVec.twoPow w bit, remainder := remainder - denominator }
  else { quotient := state.quotient, remainder := remainder }

/-- The bits from `n - 1` down to `0`. -/
def divRounds (numerator denominator : BitVec w) : ℕ → DivState w → DivState w
  | 0, state => state
  | n + 1, state => divRounds numerator denominator n (divRound numerator denominator n state)

/-- What the state says when the bits below `n` are missing. -/
structure DivState.At (state : DivState w) (numerator denominator : BitVec w) (n : ℕ) : Prop where
  quotient : state.quotient.toNat = numerator.toNat / 2 ^ n / denominator.toNat * 2 ^ n
  remainder : state.remainder.toNat = numerator.toNat / 2 ^ n % denominator.toNat

theorem DivState.At.round {state : DivState w} {numerator denominator : BitVec w} {n : ℕ}
    (h : state.At numerator denominator (n + 1)) (hn : n < w) (hpos : 0 < denominator.toNat) :
    (divRound numerator denominator n state).At numerator denominator n := by
  set N := numerator.toNat / 2 ^ n with hN
  set d := denominator.toNat with hd
  have hnext : numerator.toNat / 2 ^ (n + 1) = N / 2 := by
    rw [hN, Nat.div_div_eq_div_mul, pow_succ]
  have hr : state.remainder.toNat < d := by
    rw [h.remainder]
    exact Nat.mod_lt _ hpos
  have hshift : (state.remainder <<< 1 ||| ((numerator >>> n) &&& 1#w)).toNat =
      2 * state.remainder.toNat + N % 2 := by
    -- the remainder is not above the digits read, so the word holds one digit more
    have hle : state.remainder.toNat ≤ N / 2 := by
      rw [h.remainder, hnext]
      exact Nat.mod_le _ _
    have hlt : N < 2 ^ w := lt_of_le_of_lt (Nat.div_le_self _ _) numerator.isLt
    have heven : 2 ^ w = 2 * 2 ^ (w - 1) := by
      rw [← pow_succ', Nat.sub_add_cancel (Nat.zero_lt_of_lt hn)]
    rw [toNat_shiftIn (by omega) (by omega), toNat_shiftRight]
  -- the next digit of a number and of its quotient
  have hdigit : N = d * (2 * (N / 2 / d)) + (2 * state.remainder.toNat + N % 2) := by
    rw [h.remainder, hnext]
    calc N = 2 * (N / 2) + N % 2 := (Nat.div_add_mod N 2).symm
      _ = 2 * (d * (N / 2 / d) + N / 2 % d) + N % 2 := by rw [Nat.div_add_mod (N / 2) d]
      _ = _ := by ring
  have hquotient : state.quotient.toNat = 2 ^ (n + 1) * (N / 2 / d) := by
    rw [h.quotient, hnext, Nat.mul_comm]
  rw [divRound]
  by_cases hfits : denominator ≤ state.remainder <<< 1 ||| ((numerator >>> n) &&& 1#w)
  · have hle : d ≤ 2 * state.remainder.toNat + N % 2 := by
      rw [← hshift]
      exact BitVec.le_def.mp hfits
    have hrest : 2 * state.remainder.toNat + N % 2 - d < d := by omega
    have hsplit : N = d * (2 * (N / 2 / d) + 1) + (2 * state.remainder.toNat + N % 2 - d) := by
      rw [Nat.mul_add, Nat.mul_one, Nat.add_assoc, Nat.add_sub_cancel' hle]
      exact hdigit
    have hq : N / d = 2 * (N / 2 / d) + 1 := by
      conv_lhs => rw [hsplit]
      rw [Nat.mul_add_div hpos, Nat.div_eq_of_lt hrest, Nat.add_zero]
    have hm : N % d = 2 * state.remainder.toNat + N % 2 - d := by
      conv_lhs => rw [hsplit]
      rw [Nat.mul_add_mod, Nat.mod_eq_of_lt hrest]
    rw [if_pos hfits]
    refine ⟨?_, ?_⟩
    · have hor := Nat.two_pow_add_eq_or_of_lt (i := n + 1) (b := 2 ^ n)
        (Nat.pow_lt_pow_right (by decide) (Nat.lt_succ_self n)) (N / 2 / d)
      rw [← hN, hq, BitVec.toNat_or, hquotient, BitVec.toNat_twoPow,
        Nat.mod_eq_of_lt (Nat.pow_lt_pow_right (by decide) hn), ← hor, pow_succ]
      ring
    · rw [toNat_sub_of_le (by rw [hshift]; exact hle), hshift, ← hN, hm]
  · have hlt : 2 * state.remainder.toNat + N % 2 < d := by
      rw [← hshift]
      exact BitVec.lt_def.mp (BitVec.not_le.mp hfits)
    have hq : N / d = 2 * (N / 2 / d) := by
      conv_lhs => rw [hdigit]
      rw [Nat.mul_add_div hpos, Nat.div_eq_of_lt hlt, Nat.add_zero]
    have hm : N % d = 2 * state.remainder.toNat + N % 2 := by
      conv_lhs => rw [hdigit]
      rw [Nat.mul_add_mod, Nat.mod_eq_of_lt hlt]
    rw [if_neg hfits]
    refine ⟨?_, ?_⟩
    · rw [← hN, hq, hquotient, pow_succ]
      ring
    · rw [← hN, hm, hshift]

/-- **Restoring division divides**: from the bit above the highest one of the numerator on, it
ends with the quotient and the remainder. -/
theorem divRounds_eq {numerator denominator : BitVec w} {n : ℕ} (hn : n ≤ w)
    (hnumerator : numerator.toNat < 2 ^ n) (hpos : 0 < denominator.toNat) :
    (divRounds numerator denominator n { quotient := 0, remainder := 0 }).quotient.toNat =
        numerator.toNat / denominator.toNat ∧
      (divRounds numerator denominator n { quotient := 0, remainder := 0 }).remainder.toNat =
        numerator.toNat % denominator.toNat := by
  have hrun : ∀ m state, m ≤ w → DivState.At state numerator denominator m →
      (divRounds numerator denominator m state).At numerator denominator 0 := by
    intro m
    induction m with
    | zero => exact fun state _ h => h
    | succ m ih =>
        intro state hm h
        exact ih _ (Nat.le_of_succ_le hm) (h.round hm hpos)
  have hstart : (DivState.mk 0 0 : DivState w).At numerator denominator n := by
    refine ⟨?_, ?_⟩ <;> simp [Nat.div_eq_of_lt hnumerator]
  obtain ⟨hq, hr⟩ := hrun n _ hn hstart
  rw [pow_zero, Nat.div_one, Nat.mul_one] at hq
  rw [pow_zero, Nat.div_one] at hr
  exact ⟨hq, hr⟩

/-! ### Digit-by-digit roots -/

/-- What is left of the value, the root so far and the bit that is tried next. -/
structure RootState (w : ℕ) where
  value : BitVec w
  result : BitVec w
  bit : BitVec w
  deriving DecidableEq, Repr

/-- One bit of the root. -/
def rootRound (state : RootState w) : RootState w :=
  if state.result + state.bit ≤ state.value then
    { value := state.value - (state.result + state.bit)
      result := state.result >>> 1 + state.bit
      bit := state.bit >>> 2 }
  else { value := state.value, result := state.result >>> 1, bit := state.bit >>> 2 }

/-- `root` is the root so far, and its bits below `2 ^ e` are missing. -/
structure RootState.At (state : RootState w) (target root e : ℕ) : Prop where
  value : root * root + state.value.toNat = target
  result : state.result.toNat = root * 2 ^ e
  bit : state.bit.toNat = 4 ^ e / 4
  below : target < (root + 2 ^ e) * (root + 2 ^ e)

section Root

variable {k target : ℕ} (hw : w = 2 * k + 2) (htarget : target < 4 ^ k)
include hw htarget

theorem RootState.At.round {state : RootState w} {root e : ℕ} (h : state.At target root (e + 1))
    (he : e ≤ k) : ∃ next, (rootRound state).At target next e := by
  have hbit : state.bit.toNat = 4 ^ e := by
    rw [h.bit, pow_succ, Nat.mul_div_cancel _ (by decide)]
  have hsquare : (2 : ℕ) ^ e * 2 ^ e = 4 ^ e := (mul_pow 2 2 e).symm
  have hwide : 2 ^ w = 4 * 4 ^ k := by
    rw [hw, pow_add, pow_mul]
    norm_num
    ring
  -- the step stays inside the word
  have hroot : root < 2 ^ k := by
    apply Nat.mul_self_lt_mul_self_iff.mp
    rw [← mul_pow]
    exact lt_of_le_of_lt (Nat.le.intro h.value) htarget
  have hfour : 4 ^ e ≤ 4 ^ k := Nat.pow_le_pow_right (by decide) he
  have hscaled : root * 2 ^ (e + 1) ≤ 2 * 4 ^ k := by
    calc root * 2 ^ (e + 1) ≤ 2 ^ k * 2 ^ (k + 1) :=
          Nat.mul_le_mul hroot.le (Nat.pow_le_pow_right two_pos (Nat.succ_le_succ he))
      _ = 2 * 4 ^ k := by
          rw [pow_succ, ← mul_assoc, ← mul_pow, Nat.mul_comm]
          norm_num
  have hpos : 0 < 4 ^ k := Nat.pow_pos (by decide)
  have hstep : (state.result + state.bit).toNat = root * 2 ^ (e + 1) + 4 ^ e := by
    rw [toNat_add_of_lt] <;> rw [h.result, hbit]
    omega
  have hhalf : (state.result >>> 1).toNat = root * 2 ^ e := by
    rw [toNat_shiftRight, h.result, pow_one, pow_succ, ← mul_assoc,
      Nat.mul_div_cancel _ (by decide)]
  have hnext : (state.bit >>> 2).toNat = 4 ^ e / 4 := by
    rw [toNat_shiftRight, hbit]
    norm_num
  have hadd : (root + 2 ^ e) * (root + 2 ^ e) =
      root * root + (root * 2 ^ (e + 1) + 4 ^ e) := by
    rw [← hsquare, pow_succ]
    ring
  have hdouble : root + 2 ^ (e + 1) = root + 2 ^ e + 2 ^ e := by
    rw [pow_succ]
    ring
  have hvalue := h.value
  rw [rootRound]
  by_cases hfits : state.result + state.bit ≤ state.value
  · have hle : root * 2 ^ (e + 1) + 4 ^ e ≤ state.value.toNat := by
      rw [← hstep]
      exact BitVec.le_def.mp hfits
    rw [if_pos hfits]
    refine ⟨root + 2 ^ e, ?_, ?_, hnext, hdouble ▸ h.below⟩
    · rw [toNat_sub_of_le (BitVec.le_def.mp hfits), hstep, hadd]
      omega
    · have hsum : root * 2 ^ e + 4 ^ e = (root + 2 ^ e) * 2 ^ e := by
        rw [← hsquare]
        ring
      have hsmall : root * 2 ^ e ≤ root * 2 ^ (e + 1) :=
        Nat.mul_le_mul_left root (Nat.pow_le_pow_right two_pos (Nat.le_succ e))
      rw [toNat_add_of_lt] <;> rw [hhalf, hbit]
      · exact hsum
      · omega
  · have hlt : state.value.toNat < root * 2 ^ (e + 1) + 4 ^ e := by
      rw [← hstep]
      exact BitVec.lt_def.mp (BitVec.not_le.mp hfits)
    rw [if_neg hfits]
    refine ⟨root, hvalue, hhalf, hnext, ?_⟩
    rw [hadd]
    omega

/-- **The digit-by-digit root is the integer square root**, from any bit above the target on. -/
theorem rootRounds_eq {state : RootState w} {e : ℕ} (he : e ≤ k)
    (hvalue : state.value.toNat = target) (hresult : state.result = 0)
    (hbit : state.bit.toNat = 4 ^ e) (hbelow : target < 4 ^ (e + 1)) :
    (rootRound^[e + 1] state).result.toNat = Nat.sqrt target ∧
      (rootRound^[e + 1] state).bit = 0 := by
  have hrun : ∀ m (state : RootState w) root, m ≤ k + 1 → state.At target root m →
      ∃ final, (rootRound^[m] state).At target final 0 := by
    intro m
    induction m with
    | zero => exact fun state root _ h => ⟨root, h⟩
    | succ m ih =>
        intro state root hm h
        obtain ⟨next, hnext⟩ := h.round hw htarget (Nat.le_of_succ_le_succ hm)
        exact ih _ next (Nat.le_of_succ_le hm) hnext
  have hstart : state.At target 0 (e + 1) := by
    refine ⟨by rw [hvalue]; simp, by simp [hresult], ?_, ?_⟩
    · rw [hbit, pow_succ, Nat.mul_div_cancel _ (by decide)]
    · rw [Nat.zero_add, ← mul_pow]
      exact hbelow
  obtain ⟨root, hroot⟩ := hrun (e + 1) state 0 (Nat.succ_le_succ he) hstart
  refine ⟨?_, ?_⟩
  · rw [hroot.result, pow_zero, Nat.mul_one]
    apply Nat.eq_sqrt.mpr
    refine ⟨Nat.le.intro hroot.value, ?_⟩
    simpa using hroot.below
  · apply BitVec.eq_of_toNat_eq
    rw [hroot.bit]
    rfl

end Root

end RunD.Word
