/-
Rounding with guard and sticky bits, as arithmetic on integers.

Hardware-style addition replaces an exact quantity `n / 2 ^ k` by a short
integer `j` whose last bit is sticky.  The short integer is wrong as a number,
but it is still on the right side of every value that rounding compares it
with.  `Tracks g k j n` says exactly that: `j` and `n / 2 ^ k` stand on the
same side of every multiple of `g`.  Shifting right with a sticky bit tracks
the multiples of two (`tracks_jam`), adding an exact even number and changing
the sign keep that, one more sticky shift keeps it, and one left shift loses
a factor of two (`Tracks.double`).

The second half is about the target of rounding: the integers with `p`
significant bits (`Significand`).  A multiple `m * 2 ^ k` within half a unit of
`s`, even in the case of a tie, is a nearest such integer, ties to even
(`nearest_significand`).
-/
import Mathlib.Algebra.Order.Ring.Int
import Mathlib.Algebra.Order.Group.Unbundled.Int
import Mathlib.Tactic.Linarith
import Mathlib.Tactic.Ring
import Mathlib.Tactic.Positivity

namespace RunD

/-! ### Standing on the same side of every multiple -/

/-- `j` stands on the same side of every multiple of `g` as `n / 2 ^ k` does. -/
def Tracks (g k : ℕ) (j n : ℤ) : Prop :=
  ∀ t : ℤ, (t * g ≤ j ↔ t * g * 2 ^ k ≤ n) ∧ (j ≤ t * g ↔ n ≤ t * g * 2 ^ k)

variable {g k d : ℕ} {j n : ℤ}

theorem tracks_exact (h : j * 2 ^ k = n) : Tracks g k j n := by
  intro t
  have hpos : (0 : ℤ) < 2 ^ k := by positivity
  subst h
  exact ⟨(mul_le_mul_iff_left₀ hpos).symm, (mul_le_mul_iff_left₀ hpos).symm⟩

theorem Tracks.neg (h : Tracks g k j n) : Tracks g k (-j) (-n) := by
  intro t
  obtain ⟨hle, hge⟩ := h (-t)
  constructor
  · rw [show t * (g : ℤ) ≤ -j ↔ j ≤ -t * g by constructor <;> intro <;> linarith, hge]
    constructor <;> intro <;> linarith
  · rw [show -j ≤ t * (g : ℤ) ↔ -t * g ≤ j by constructor <;> intro <;> linarith, hle]
    constructor <;> intro <;> linarith

/-- Adding an exact multiple of the granularity. -/
theorem Tracks.add_multiple (h : Tracks g k j n) (a : ℤ) :
    Tracks g k (a * g + j) (a * g * 2 ^ k + n) := by
  intro t
  obtain ⟨hle, hge⟩ := h (t - a)
  constructor
  · rw [show t * (g : ℤ) ≤ a * g + j ↔ (t - a) * g ≤ j by constructor <;> intro <;> linarith, hle]
    constructor <;> intro <;> linarith
  · rw [show a * g + j ≤ t * (g : ℤ) ↔ j ≤ (t - a) * g by constructor <;> intro <;> linarith, hge]
    constructor <;> intro <;> linarith

/-- Tracking a finer scale of the same number. -/
theorem Tracks.scale (h : Tracks g k j n) (d : ℕ) : Tracks g (k + d) j (n * 2 ^ d) := by
  intro t
  have hpos : (0 : ℤ) < 2 ^ d := by positivity
  obtain ⟨hle, hge⟩ := h t
  rw [hle, hge, pow_add, ← mul_assoc]
  exact ⟨(mul_le_mul_iff_left₀ hpos).symm, (mul_le_mul_iff_left₀ hpos).symm⟩

theorem Tracks.coarsen (h : Tracks g k j n) (c : ℕ) : Tracks (c * g) k j n := by
  intro t
  have := h (t * c)
  simpa only [Nat.cast_mul, mul_assoc] using this

/-- One shift to the left costs one factor of two. -/
theorem Tracks.double (h : Tracks g (k + 1) j n) : Tracks (2 * g) k (2 * j) n := by
  intro t
  obtain ⟨hle, hge⟩ := h t
  push_cast
  constructor
  · rw [show t * (2 * (g : ℤ)) ≤ 2 * j ↔ t * g ≤ j by constructor <;> intro <;> linarith, hle]
    rw [pow_succ]
    constructor <;> intro <;> linarith
  · rw [show 2 * j ≤ t * (2 * (g : ℤ)) ↔ j ≤ t * g by constructor <;> intro <;> linarith, hge]
    rw [pow_succ]
    constructor <;> intro <;> linarith

theorem Tracks.le_iff (h : Tracks g k j n) {c : ℤ} (t : ℤ) (hc : c = t * g) :
    c ≤ j ↔ c * 2 ^ k ≤ n := hc ▸ (h t).1

theorem Tracks.ge_iff (h : Tracks g k j n) {c : ℤ} (t : ℤ) (hc : c = t * g) :
    j ≤ c ↔ n ≤ c * 2 ^ k := hc ▸ (h t).2

/-! ### The sticky shift -/

/-- Shift right by `d`; a bit shifted out makes the last bit kept odd. -/
def jam (n d : ℕ) : ℕ := if n % 2 ^ d = 0 then n / 2 ^ d else 2 * (n / 2 ^ d / 2) + 1

theorem jam_zero (n : ℕ) : jam n 0 = n := by simp [jam, Nat.mod_one]

theorem jam_le (n d : ℕ) : jam n d ≤ n / 2 ^ d + 1 := by
  unfold jam
  split <;> omega

theorem jam_mul_eq {n d : ℕ} (h : n % 2 ^ d = 0) : jam n d * 2 ^ d = n := by
  rw [jam, if_pos h]
  exact Nat.div_mul_cancel (Nat.dvd_of_mod_eq_zero h)

/-- A sticky shift tracks every even integer. -/
theorem tracks_jam (n d : ℕ) : Tracks 2 d (jam n d) n := by
  by_cases hn : n % 2 ^ d = 0
  · exact tracks_exact (by exact_mod_cast jam_mul_eq hn)
  · intro t
    have hpos : (0 : ℤ) < 2 ^ d := by positivity
    have hsplit : (n : ℤ) = 2 ^ d * (n / 2 ^ d : ℕ) + (n % 2 ^ d : ℕ) := by
      exact_mod_cast (Nat.div_add_mod n (2 ^ d)).symm
    have hlow : (0 : ℤ) < (n % 2 ^ d : ℕ) := by exact_mod_cast Nat.pos_of_ne_zero hn
    have hhigh : ((n % 2 ^ d : ℕ) : ℤ) < 2 ^ d := by
      exact_mod_cast Nat.mod_lt n (Nat.two_pow_pos d)
    have hjam : ((jam n d : ℕ) : ℤ) = 2 * ((n / 2 ^ d : ℕ) / 2 : ℕ) + 1 := by
      rw [jam, if_neg hn]
      push_cast
      ring
    rw [hjam]
    set q : ℕ := n / 2 ^ d
    push_cast
    -- an even integer is below the odd `j` exactly when it is at most the quotient
    constructor
    · have hq : t * 2 ≤ 2 * ((q / 2 : ℕ) : ℤ) + 1 ↔ t * 2 ≤ q := by omega
      push_cast at hq
      rw [hq, hsplit]
      constructor
      · intro h
        nlinarith
      · intro h
        by_contra hc
        have : (q : ℤ) + 1 ≤ t * 2 := by omega
        nlinarith
    · have hq : 2 * ((q / 2 : ℕ) : ℤ) + 1 ≤ t * 2 ↔ (q : ℤ) + 1 ≤ t * 2 := by omega
      push_cast at hq
      rw [hq, hsplit]
      constructor
      · intro h
        nlinarith
      · intro h
        by_contra hc
        have : t * 2 ≤ (q : ℤ) := by omega
        nlinarith

/-- A further sticky shift by one keeps tracking the even integers. -/
theorem Tracks.jam_one {j : ℕ} (h : Tracks 2 k j n) : Tracks 2 (k + 1) (jam j 1) n := by
  intro t
  obtain ⟨hle, hge⟩ := tracks_jam j 1 t
  obtain ⟨hle', hge'⟩ := h (t * 2)
  push_cast at hle hge hle' hge' ⊢
  rw [hle, hge, hle', hge', pow_succ]
  constructor <;> constructor <;> intro <;> linarith

/-! ### Integers with a bounded number of significant bits -/

/-- `y` is an integer with at most `p` significant bits. -/
def Significand (p : ℕ) (y : ℤ) : Prop := ∃ m k : ℕ, m < 2 ^ p ∧ |y| = m * 2 ^ k

/-- A number of full precision above `2 ^ (f + k)` is a multiple of `2 ^ k`. -/
theorem Significand.multiple {f k : ℕ} {y : ℤ} (hy : Significand (f + 1) y)
    (hbig : 2 ^ (f + k) ≤ |y|) : ∃ q : ℤ, y = q * 2 ^ k := by
  obtain ⟨m, i, hm, habs⟩ := hy
  have hi : k ≤ i := by
    by_contra hlt
    have hpow : m * 2 ^ i < 2 ^ (f + 1) * 2 ^ i :=
      (Nat.mul_lt_mul_right (Nat.two_pow_pos i)).mpr hm
    have hle : 2 ^ (f + 1) * 2 ^ i ≤ 2 ^ (f + k) := by
      rw [← pow_add]
      exact Nat.pow_le_pow_right (by omega) (by omega)
    have : (2 : ℤ) ^ (f + k) ≤ m * 2 ^ i := habs ▸ hbig
    have : 2 ^ (f + k) ≤ m * 2 ^ i := by exact_mod_cast this
    omega
  obtain ⟨e, rfl⟩ := Nat.exists_eq_add_of_le hi
  rcases abs_choice y with h | h
  · refine ⟨m * 2 ^ e, ?_⟩
    rw [← h, habs, pow_add]
    ring
  · refine ⟨-(m * 2 ^ e), ?_⟩
    have : y = -(m * 2 ^ (k + e)) := by rw [← habs, h, neg_neg]
    rw [this, pow_add]
    ring

section Nearest

variable {f m : ℕ} {s : ℤ}

/-- No multiple of `2 ^ k` is closer to `s` than `m * 2 ^ k`, and a different one is equally
close only at a tie. -/
theorem nearest_multiple (hlo : (8 * m - 4) * 2 ^ k ≤ 8 * s) (hhi : 8 * s ≤ (8 * m + 4) * 2 ^ k)
    (q : ℤ) (hq : q ≠ m) :
    |s - m * 2 ^ k| ≤ |s - q * 2 ^ k| ∧
      (|s - m * 2 ^ k| = |s - q * 2 ^ k| →
        8 * s = (8 * m - 4) * 2 ^ k ∨ 8 * s = (8 * m + 4) * 2 ^ k) := by
  have hpos : (0 : ℤ) < 2 ^ k := by positivity
  generalize (2 : ℤ) ^ k = B at *
  have hnear : |s - m * B| * 2 ≤ B := by
    rw [← Nat.abs_ofNat 2, ← abs_mul]
    exact abs_le.mpr ⟨by linarith, by linarith⟩
  rcases lt_or_gt_of_ne hq with hlt | hgt
  · have hstep : q * B ≤ (m - 1) * B := mul_le_mul_of_nonneg_right (by omega) hpos.le
    have hfar : s - q * B ≤ |s - q * B| := le_abs_self _
    refine ⟨by linarith, fun heq => Or.inl ?_⟩
    linarith
  · have hstep : (m + 1) * B ≤ q * B := mul_le_mul_of_nonneg_right (by omega) hpos.le
    have hfar : -(s - q * B) ≤ |s - q * B| := neg_le_abs _
    refine ⟨by linarith, fun heq => Or.inr ?_⟩
    linarith

/-- **Nearest, ties to even.**  A multiple of `2 ^ k` within half a unit of `s`, even at a tie,
is a nearest number of `f + 1` significant bits, and only an even one has an equal rival. -/
theorem nearest_significand (hlo : (8 * m - 4) * 2 ^ k ≤ 8 * s)
    (hhi : 8 * s ≤ (8 * m + 4) * 2 ^ k)
    (htie : 8 * s = (8 * m - 4) * 2 ^ k ∨ 8 * s = (8 * m + 4) * 2 ^ k → m % 2 = 0)
    (hfull : k = 0 ∨ (2 : ℤ) ^ (f + k) ≤ s) {y : ℤ} (hy : Significand (f + 1) y) :
    |s - m * 2 ^ k| ≤ |s - y| ∧ (y ≠ m * 2 ^ k → |s - m * 2 ^ k| = |s - y| → m % 2 = 0) := by
  rcases hfull with rfl | hfull
  · -- no bits are dropped: the result is exact
    have hexact : s = m * 2 ^ 0 := by
      simp only [pow_zero, mul_one] at *
      omega
    rw [← hexact, sub_self, abs_zero]
    refine ⟨abs_nonneg _, fun hne heq => absurd ?_ hne⟩
    have := abs_eq_zero.mp heq.symm
    omega
  by_cases hbig : 2 ^ (f + k) ≤ |y|
  · obtain ⟨q, rfl⟩ := hy.multiple hbig
    by_cases hq : q = m
    · subst hq
      exact ⟨le_refl _, fun hne => absurd rfl hne⟩
    · obtain ⟨hle, hrival⟩ := nearest_multiple hlo hhi q hq
      exact ⟨hle, fun _ heq => htie (hrival heq)⟩
  · -- below the binade of `s` even the binade's least number is closer
    have hy' : y < 2 ^ (f + k) := lt_of_le_of_lt (le_abs_self y) (not_le.mp hbig)
    have hedge : |s - m * 2 ^ k| ≤ |s - 2 ^ f * 2 ^ k| := by
      by_cases hm : (2 : ℤ) ^ f = m
      · rw [hm]
      · exact (nearest_multiple hlo hhi _ hm).1
    rw [← pow_add, abs_of_nonneg (sub_nonneg.mpr hfull)] at hedge
    have hfar : s - y ≤ |s - y| := le_abs_self _
    exact ⟨by linarith, fun _ heq => by linarith⟩

end Nearest

end RunD
