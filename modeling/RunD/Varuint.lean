/-
The numbers of an artifact: groups of seven bits, lowest first, as few of them
as the number needs; signed numbers folded onto the unsigned ones; and words
of eight bytes.

A number has one spelling only.  The reader refuses a group that a shorter
spelling could do without, so both round trips hold for it: what was written
is read back (`reads_readVaruint`), and what was read is what would be written
(`consumes_readVaruint`).  Both are proved on natural numbers, where a group
that is or-ed in at its place is a multiple of a power of two that is added.
-/
import RunD.ByteReader

namespace RunD

variable {ε : Type}

/-! ### Groups of seven bits -/

/-- The bytes `Writer::varuint` puts out, at most `turns` of them. -/
def varuintGroups : Nat → UInt64 → List UInt8
  | 0, _ => []
  | turns + 1, value =>
      let byte := (value &&& 0x7f).toUInt8
      let rest := value >>> 7
      if rest = 0 then [byte] else (byte ||| 0x80) :: varuintGroups turns rest

/-- The bytes of a number; ten groups hold every word. -/
def encodeVaruint (value : UInt64) : List UInt8 := varuintGroups 10 value

/-- The loop of `VaruintBytes`. -/
def countVaruintBytes : Nat → UInt64 → Nat → Nat
  | 0, _, bytes => bytes
  | turns + 1, value, bytes =>
      if value ≥ 0x80 then countVaruintBytes turns (value >>> 7) (bytes + 1) else bytes

/-- `VaruintBytes`. -/
def varuintBytes (value : UInt64) : Nat := countVaruintBytes 10 value 1

namespace Reading

/-- The loop of `Reader::varuint`, at the group `index`. -/
def varuintLoop (short : ε) : Nat → Nat → UInt64 → Reading ε UInt64
  | 0, _, _ => lift (leave short)
  | turns + 1, index, value => do
      let byte ← readU8 short
      lift (require (¬ (index = 9 ∧ byte > 1)) short)
      let value := value ||| ((byte &&& 0x7f).toUInt64 <<< UInt64.ofNat (index * 7))
      if byte &&& 0x80 = 0 then do
        lift (require (varuintBytes value = index + 1) short)
        pure value
      else varuintLoop short turns (index + 1) value

/-- `Reader::varuint`. -/
def readVaruint (short : ε) : Reading ε UInt64 := varuintLoop short 10 0 0

end Reading

/-! ### The same on natural numbers -/

/-- The groups of a number, at most `turns` of them. -/
def natGroups : Nat → Nat → List UInt8
  | 0, _ => []
  | turns + 1, n =>
      if n < 128 then [UInt8.ofNat n] else UInt8.ofNat (n % 128 + 128) :: natGroups turns (n / 128)

theorem toNat_shiftRight_seven (value : UInt64) : (value >>> 7).toNat = value.toNat / 128 := by
  rw [UInt64.toNat_shiftRight, Nat.shiftRight_eq_div_pow]
  rfl

theorem toNat_low_seven (value : UInt64) :
    (value &&& 0x7f).toUInt8.toNat = value.toNat % 128 := by
  rw [UInt64.toNat_toUInt8, UInt64.toNat_and, show (0x7f : UInt64).toNat = 2 ^ 7 - 1 from rfl,
    Nat.and_two_pow_sub_one_eq_mod]
  omega

theorem toNat_continued {byte : UInt8} (h : byte.toNat < 128) :
    (byte ||| 0x80).toNat = byte.toNat + 128 := by
  rw [UInt8.toNat_or, show (0x80 : UInt8).toNat = 2 ^ 7 * 1 from rfl, Nat.lor_comm,
    ← Nat.two_pow_add_eq_or_of_lt h]
  omega

theorem varuintGroups_eq (turns : Nat) (value : UInt64) :
    varuintGroups turns value = natGroups turns value.toNat := by
  induction turns generalizing value with
  | zero => rfl
  | succ turns ih =>
      have hlow := toNat_low_seven value
      have hrest := toNat_shiftRight_seven value
      have hzero : value >>> 7 = 0 ↔ value.toNat < 128 := by
        rw [← UInt64.toNat_inj, hrest, UInt64.toNat_zero]
        omega
      rw [varuintGroups, natGroups]
      by_cases hsmall : value.toNat < 128
      · rw [if_pos hsmall]
        simp only [if_pos (hzero.mpr hsmall), List.cons.injEq, and_true, ← UInt8.toNat_inj,
          UInt8.toNat_ofNat']
        omega
      · rw [if_neg hsmall]
        simp only [if_neg (hzero.not.mpr hsmall), ih, hrest, List.cons.injEq, and_true,
          ← UInt8.toNat_inj, UInt8.toNat_ofNat']
        rw [toNat_continued (by omega), hlow]
        omega

theorem length_natGroups_le (turns n : Nat) : (natGroups turns n).length ≤ turns := by
  induction turns generalizing n with
  | zero => exact Nat.le_refl 0
  | succ turns ih =>
      rw [natGroups]
      split_ifs
      · rw [List.length_singleton]
        omega
      · rw [List.length_cons]
        exact Nat.succ_le_succ (ih _)

theorem length_encodeVaruint_le (value : UInt64) : (encodeVaruint value).length ≤ 10 := by
  rw [encodeVaruint, varuintGroups_eq]
  exact length_natGroups_le 10 _

/-- The number `n` has the groups `0, …, k`. -/
def LastGroup (n k : Nat) : Prop := (k = 0 ∨ 2 ^ (7 * k) ≤ n) ∧ n < 2 ^ (7 * (k + 1))

theorem pow_group_succ (k : Nat) : 2 ^ (7 * (k + 1)) = 2 ^ (7 * k) * 128 := by
  rw [Nat.mul_succ, Nat.pow_add]

theorem LastGroup.unique {n k l : Nat} (hk : LastGroup n k) (hl : LastGroup n l) : k = l := by
  have hlt : ∀ {k l : Nat}, LastGroup n k → LastGroup n l → ¬ k < l := by
    rintro k l ⟨-, hk⟩ ⟨rfl | hl, -⟩ hlt
    · exact absurd hlt (Nat.not_lt_zero k)
    · have : 2 ^ (7 * (k + 1)) ≤ 2 ^ (7 * l) := Nat.pow_le_pow_right (by decide) (by omega)
      omega
  have := hlt hk hl
  have := hlt hl hk
  omega

/-- One more group in front. -/
theorem LastGroup.succ {n k : Nat} (h : LastGroup (n / 128) k) (hn : 128 ≤ n) :
    LastGroup n (k + 1) := by
  obtain ⟨hlow, hhigh⟩ := h
  rw [Nat.div_lt_iff_lt_mul (by decide), ← pow_group_succ] at hhigh
  refine ⟨Or.inr ?_, hhigh⟩
  rcases hlow with rfl | hlow
  · exact hn
  · rwa [Nat.le_div_iff_mul_le (by decide), ← pow_group_succ] at hlow

theorem countVaruintBytes_spec {turns : Nat} {value : UInt64} (bytes : Nat)
    (h : value.toNat < 2 ^ (7 * (turns + 1))) :
    ∃ k, countVaruintBytes turns value bytes = bytes + k ∧ LastGroup value.toNat k := by
  induction turns generalizing value bytes with
  | zero => exact ⟨0, rfl, Or.inl rfl, h⟩
  | succ turns ih =>
      have hrest := toNat_shiftRight_seven value
      have hge : value ≥ 0x80 ↔ 128 ≤ value.toNat := UInt64.le_iff_toNat_le
      rw [countVaruintBytes]
      by_cases hsmall : value.toNat < 128
      · rw [if_neg (by rw [hge]; omega)]
        exact ⟨0, rfl, Or.inl rfl, hsmall⟩
      · rw [if_pos (by rw [hge]; omega)]
        have hfits : (value >>> 7).toNat < 2 ^ (7 * (turns + 1)) := by
          rw [hrest, Nat.div_lt_iff_lt_mul (by decide), ← pow_group_succ]
          exact h
        obtain ⟨k, hcount, hlast⟩ := ih (bytes + 1) hfits
        rw [hrest] at hlast
        exact ⟨k + 1, by rw [hcount]; omega, hlast.succ (by omega)⟩

theorem varuintBytes_eq_iff {value : UInt64} {k : Nat} :
    varuintBytes value = k + 1 ↔ LastGroup value.toNat k := by
  obtain ⟨l, hcount, hlast⟩ := @countVaruintBytes_spec 10 value 1
    (value.toNat_lt.trans (by decide))
  rw [varuintBytes, hcount]
  constructor
  · intro h
    obtain rfl : l = k := by omega
    exact hlast
  · intro h
    rw [hlast.unique h]
    omega

/-! ### Reading a number back -/

theorem toNat_payload (byte : UInt8) : (byte &&& 0x7f).toNat = byte.toNat % 128 := by
  rw [UInt8.toNat_and, show (0x7f : UInt8).toNat = 2 ^ 7 - 1 from rfl,
    Nat.and_two_pow_sub_one_eq_mod]

theorem last_iff (byte : UInt8) : byte &&& 0x80 = 0 ↔ byte.toNat < 128 := by
  have hbyte := byte.toNat_lt
  rw [← UInt8.toNat_inj, UInt8.toNat_and, show (0x80 : UInt8).toNat = 2 ^ 7 from rfl,
    Nat.and_two_pow, UInt8.toNat_zero]
  rcases hbit : byte.toNat.testBit 7 with - | -
  · rw [Nat.testBit_eq_decide_div_mod_eq, decide_eq_false_iff_not] at hbit
    simp only [Bool.toNat_false, Nat.zero_mul, true_iff]
    omega
  · rw [Nat.testBit_eq_decide_div_mod_eq, decide_eq_true_eq] at hbit
    simp only [Bool.toNat_true, Nat.one_mul]
    omega

/-- A group or-ed in at its place is added there. -/
theorem toNat_join {value : UInt64} {byte : UInt8} {index : Nat} (hindex : index < 10)
    (hvalue : value.toNat < 2 ^ (7 * index))
    (hfits : 2 ^ (7 * index) * (byte.toNat % 128) < 2 ^ 64) :
    (value ||| ((byte &&& 0x7f).toUInt64 <<< UInt64.ofNat (index * 7))).toNat =
      value.toNat + 2 ^ (7 * index) * (byte.toNat % 128) := by
  have hshift : (UInt64.ofNat (index * 7)).toNat = 7 * index := by
    rw [UInt64.toNat_ofNat', Nat.mod_eq_of_lt (by omega), Nat.mul_comm]
  rw [UInt64.toNat_or, UInt64.toNat_shiftLeft, UInt8.toNat_toUInt64, toNat_payload, hshift,
    Nat.mod_eq_of_lt (show 7 * index < 64 by omega), Nat.shiftLeft_eq, Nat.mul_comm _ (2 ^ _),
    Nat.mod_eq_of_lt hfits, Nat.lor_comm, ← Nat.two_pow_add_eq_or_of_lt hvalue, Nat.add_comm]

theorem join_lt {n index : Nat} (hn : n < 2 ^ (7 * index)) {group : Nat} (hgroup : group < 128) :
    n + 2 ^ (7 * index) * group < 2 ^ (7 * (index + 1)) := by
  rw [pow_group_succ]
  calc n + 2 ^ (7 * index) * group < 2 ^ (7 * index) + 2 ^ (7 * index) * group := by omega
    _ = 2 ^ (7 * index) * (group + 1) := by rw [Nat.mul_add, Nat.mul_one, Nat.add_comm]
    _ ≤ 2 ^ (7 * index) * 128 := Nat.mul_le_mul_left _ hgroup

/-- The groups that are left are those of the number behind the ones read so far. -/
theorem join_rest (n index m : Nat) :
    n + 2 ^ (7 * index) * (m % 128) + 2 ^ (7 * (index + 1)) * (m / 128) =
      n + 2 ^ (7 * index) * m := by
  rw [pow_group_succ, Nat.mul_assoc, Nat.add_assoc, ← Nat.mul_add, Nat.mod_add_div]

/-- The loop, started behind `index` groups, reads the groups that are left. -/
theorem reads_varuintLoop (short : ε) {turns index : Nat} (hturns : turns + index = 10)
    {value : UInt64} (hvalue : value.toNat < 2 ^ (7 * index)) {m : Nat}
    (hfits : value.toNat + 2 ^ (7 * index) * m < 2 ^ 64) (hmore : index = 0 ∨ 0 < m) :
    Reads (Reading.varuintLoop short turns index value) (natGroups turns m)
      (UInt64.ofNat (value.toNat + 2 ^ (7 * index) * m)) := by
  induction turns generalizing index value m with
  | zero =>
      obtain rfl : index = 10 := by omega
      omega
  | succ turns ih =>
      have hpow : 0 < 2 ^ (7 * index) := Nat.two_pow_pos _
      rw [Reading.varuintLoop, natGroups]
      by_cases hlast : m < 128
      · rw [if_pos hlast]
        have hbyte : (UInt8.ofNat m).toNat = m := by
          rw [UInt8.toNat_ofNat']
          omega
        have hjoin := @toNat_join value (UInt8.ofNat m) index (by omega) hvalue
          (by rw [hbyte, Nat.mod_eq_of_lt hlast]; omega)
        rw [hbyte, Nat.mod_eq_of_lt hlast] at hjoin
        have hnine : ¬ (index = 9 ∧ UInt8.ofNat m > 1) := by
          rintro ⟨rfl, hgt⟩
          rw [gt_iff_lt, UInt8.lt_iff_toNat_lt, hbyte, UInt8.toNat_one] at hgt
          omega
        have hgroups : LastGroup (value.toNat + 2 ^ (7 * index) * m) index := by
          refine ⟨hmore.imp id fun hm => ?_, join_lt hvalue hlast⟩
          exact (Nat.le_mul_of_pos_right _ hm).trans (Nat.le_add_left _ _)
        rw [← List.append_nil [UInt8.ofNat m]]
        refine (reads_readU8 short _).bind ?_
        refine Reads.require_bind hnine ?_
        rw [if_pos ((last_iff _).mpr (by omega))]
        refine Reads.require_bind (varuintBytes_eq_iff.mpr (by rwa [hjoin])) ?_
        rw [← hjoin, UInt64.ofNat_toNat]
        exact reads_pure _
      · rw [if_neg hlast]
        have hbyte : (UInt8.ofNat (m % 128 + 128)).toNat = m % 128 + 128 := by
          rw [UInt8.toNat_ofNat']
          omega
        have hgroup : (m % 128 + 128) % 128 = m % 128 := by omega
        have hsum := join_rest value.toNat index m
        have hjoin := @toNat_join value (UInt8.ofNat (m % 128 + 128)) index (by omega) hvalue
          (by rw [hbyte, hgroup]; omega)
        rw [hbyte, hgroup] at hjoin
        have hnine : ¬ (index = 9 ∧ UInt8.ofNat (m % 128 + 128) > 1) := by
          rintro ⟨rfl, -⟩
          omega
        rw [← List.singleton_append]
        refine (reads_readU8 short _).bind ?_
        refine Reads.require_bind hnine ?_
        rw [if_neg ((last_iff _).not.mpr (by omega)), ← hsum, ← hjoin]
        refine ih (by omega) ?_ ?_ (Or.inr (by omega))
        · rw [hjoin]
          exact join_lt hvalue (Nat.mod_lt _ (by decide))
        · rw [hjoin, hsum]
          exact hfits

/-- **A number that was written is read back.** -/
theorem reads_readVaruint (short : ε) (value : UInt64) :
    Reads (Reading.readVaruint short) (encodeVaruint value) value := by
  have hreads := @reads_varuintLoop ε short 10 0 rfl 0 (by decide) value.toNat
    (by simpa using value.toNat_lt) (Or.inl rfl)
  rw [encodeVaruint, varuintGroups_eq, Reading.readVaruint]
  simpa using hreads

/-- What the loop reads behind `index` groups is spelled in as few groups as it takes. -/
theorem consumes_varuintLoop (short : ε) {turns index : Nat} (hturns : turns + index = 10)
    {value : UInt64} (hvalue : value.toNat < 2 ^ (7 * index)) :
    Consumes (Reading.varuintLoop short turns index value) fun result code =>
      ∃ m, result.toNat = value.toNat + 2 ^ (7 * index) * m ∧ code = natGroups turns m ∧
        (index = 0 ∨ 0 < m) := by
  induction turns generalizing index value with
  | zero => exact consumes_lift fun a h => absurd h leave_ne_ok
  | succ turns ih =>
      rw [Reading.varuintLoop]
      refine (consumes_readU8 short).bind fun byte c₁ hbyte => ?_
      refine Consumes.require_bind fun hnine => ?_
      have hlt := byte.toNat_lt
      -- the tenth group has one bit left
      have hgroup : 2 ^ (7 * index) * (byte.toNat % 128) < 2 ^ 64 := by
        by_cases h9 : index = 9
        · subst h9
          rw [gt_iff_lt, UInt8.lt_iff_toNat_lt, UInt8.toNat_one] at hnine
          omega
        · calc 2 ^ (7 * index) * (byte.toNat % 128) < 2 ^ (7 * index) * 128 :=
                Nat.mul_lt_mul_of_pos_left (Nat.mod_lt _ (by decide)) (Nat.two_pow_pos _)
            _ = 2 ^ (7 * (index + 1)) := (pow_group_succ index).symm
            _ ≤ 2 ^ 64 := Nat.pow_le_pow_right (by decide) (by omega)
      have hjoin := @toNat_join value byte index (by omega) hvalue hgroup
      rw [hbyte]
      by_cases hlast : byte.toNat < 128
      · rw [if_pos ((last_iff _).mpr hlast)]
        rw [Nat.mod_eq_of_lt hlast] at hjoin
        refine Consumes.require_bind fun hcount => ?_
        obtain ⟨hgroups, -⟩ := varuintBytes_eq_iff.mp hcount
        refine consumes_pure ⟨byte.toNat, hjoin, ?_, hgroups.imp id fun hle => ?_⟩
        · rw [natGroups, if_pos hlast, UInt8.ofNat_toNat]
          rfl
        · rw [hjoin] at hle
          by_contra hzero
          rw [show byte.toNat = 0 by omega] at hle
          omega
      · rw [if_neg ((last_iff _).not.mpr hlast)]
        refine (ih (by omega) ?_).mono ?_
        · rw [hjoin]
          exact join_lt hvalue (Nat.mod_lt _ (by decide))
        · rintro result code ⟨m, hresult, rfl, hm⟩
          have hm : 0 < m := hm.resolve_left (Nat.succ_ne_zero index)
          have hmod : (byte.toNat % 128 + 128 * m) % 128 = byte.toNat % 128 := by omega
          have hdiv : (byte.toNat % 128 + 128 * m) / 128 = m := by omega
          refine ⟨byte.toNat % 128 + 128 * m, ?_, ?_, Or.inr (by omega)⟩
          · rw [hresult, hjoin, ← join_rest _ _ (byte.toNat % 128 + 128 * m), hmod, hdiv]
          · have hsame : UInt8.ofNat (byte.toNat % 128 + 128) = byte := by
              rw [← UInt8.toNat_inj, UInt8.toNat_ofNat']
              omega
            rw [natGroups, if_neg (by omega), hmod, hdiv, hsame]
            rfl

/-- **A number that is read is spelled the way it would be written.** -/
theorem consumes_readVaruint (short : ε) :
    Consumes (Reading.readVaruint short) fun value code => code = encodeVaruint value := by
  refine (@consumes_varuintLoop ε short 10 0 rfl 0 (by decide)).mono ?_
  rintro value code ⟨m, hvalue, rfl, -⟩
  rw [encodeVaruint, varuintGroups_eq, hvalue]
  simp

theorem safelyReads_readVaruint (short : ε) :
    SafelyReads (Reading.readVaruint short) fun _ => True := by
  have hloop : ∀ turns index value,
      SafelyReads (Reading.varuintLoop short turns index value) fun _ => True := by
    intro turns
    induction turns with
    | zero => exact fun _ _ => safelyReads_lift (safely_leave _)
    | succ turns ih =>
        intro index value
        refine (safelyReads_readU8 short).bind fun byte _ => ?_
        refine SafelyReads.require_bind fun _ => ?_
        dsimp only
        split_ifs
        · exact SafelyReads.require_bind fun _ => safelyReads_pure trivial
        · exact ih _ _
  exact hloop 10 0 0

/-! ### Signed numbers -/

/-- The fold of `Writer::sint`: 0, -1, 1, -2, … in this order. -/
def zigzag (bits : UInt64) : UInt64 := (bits <<< 1) ^^^ ((0 : UInt64) - (bits >>> 63))

/-- The way back in `Reader::sint`. -/
def unzigzag (encoded : UInt64) : UInt64 := (encoded >>> 1) ^^^ ((0 : UInt64) - (encoded &&& 1))

/-- The bytes of `Writer::sint`. -/
def encodeSint (value : Int64) : List UInt8 := encodeVaruint (zigzag value.toUInt64)

/-- `Reader::sint`. -/
def Reading.readSint (short : ε) : Reading ε Int64 := do
  let encoded ← readVaruint short
  pure (unzigzag encoded).toInt64

theorem toNat_xor_ones (x : UInt64) : (x ^^^ (0 - 1)).toNat = 2 ^ 64 - 1 - x.toNat := by
  rw [show (0 : UInt64) - 1 = -1 from rfl, UInt64.xor_neg_one, UInt64.toNat_not]
  rfl

theorem toNat_zigzag (bits : UInt64) :
    (zigzag bits).toNat =
      if bits.toNat < 2 ^ 63 then 2 * bits.toNat else 2 ^ 65 - 1 - 2 * bits.toNat := by
  have hbits := bits.toNat_lt
  have hsign : (bits >>> 63).toNat = bits.toNat / 2 ^ 63 := by
    rw [UInt64.toNat_shiftRight, Nat.shiftRight_eq_div_pow]
    rfl
  have htwice : (bits <<< 1).toNat = 2 * bits.toNat % 2 ^ 64 := by
    rw [UInt64.toNat_shiftLeft, Nat.shiftLeft_eq]
    show bits.toNat * 2 ^ 1 % 2 ^ 64 = _
    rw [pow_one, Nat.mul_comm]
  rw [zigzag]
  by_cases hpos : bits.toNat < 2 ^ 63
  · have hzero : bits >>> 63 = 0 := by
      rw [← UInt64.toNat_inj, hsign, Nat.div_eq_of_lt hpos]
      rfl
    rw [if_pos hpos, hzero, UInt64.sub_zero, UInt64.xor_zero, htwice]
    omega
  · have hone : bits >>> 63 = 1 := by
      rw [← UInt64.toNat_inj, hsign, UInt64.toNat_one]
      omega
    rw [if_neg hpos, hone, toNat_xor_ones, htwice]
    omega

theorem toNat_unzigzag (encoded : UInt64) :
    (unzigzag encoded).toNat =
      if encoded.toNat % 2 = 0 then encoded.toNat / 2 else 2 ^ 64 - 1 - encoded.toNat / 2 := by
  have hlow : (encoded &&& 1).toNat = encoded.toNat % 2 := by
    rw [UInt64.toNat_and, UInt64.toNat_one, Nat.and_one_is_mod]
  have hhalf : (encoded >>> 1).toNat = encoded.toNat / 2 := by
    rw [UInt64.toNat_shiftRight, Nat.shiftRight_eq_div_pow]
    rfl
  rw [unzigzag]
  by_cases heven : encoded.toNat % 2 = 0
  · have hzero : encoded &&& 1 = 0 := by
      rw [← UInt64.toNat_inj, hlow, heven]
      rfl
    rw [if_pos heven, hzero, UInt64.sub_zero, UInt64.xor_zero, hhalf]
  · have hone : encoded &&& 1 = 1 := by
      rw [← UInt64.toNat_inj, hlow, UInt64.toNat_one]
      omega
    rw [if_neg heven, hone, toNat_xor_ones, hhalf]

theorem unzigzag_zigzag (bits : UInt64) : unzigzag (zigzag bits) = bits := by
  have hbits := bits.toNat_lt
  rw [← UInt64.toNat_inj, toNat_unzigzag, toNat_zigzag]
  split_ifs <;> omega

theorem zigzag_unzigzag (encoded : UInt64) : zigzag (unzigzag encoded) = encoded := by
  have hencoded := encoded.toNat_lt
  rw [← UInt64.toNat_inj, toNat_zigzag, toNat_unzigzag]
  split_ifs <;> omega

theorem reads_readSint (short : ε) (value : Int64) :
    Reads (Reading.readSint short) (encodeSint value) value := by
  rw [← List.append_nil (encodeSint value)]
  refine (reads_readVaruint short (zigzag value.toUInt64)).bind ?_
  rw [unzigzag_zigzag, Int64.toInt64_toUInt64]
  exact reads_pure value

theorem consumes_readSint (short : ε) :
    Consumes (Reading.readSint short) fun value code => code = encodeSint value := by
  refine (consumes_readVaruint short).bind fun encoded c₁ h => consumes_pure ?_
  rw [encodeSint, UInt64.toUInt64_toInt64, zigzag_unzigzag, h, List.append_nil]

theorem safelyReads_readSint (short : ε) :
    SafelyReads (Reading.readSint short) fun _ => True :=
  (safelyReads_readVaruint short).bind fun _ _ => safelyReads_pure trivial

/-! ### Words of eight bytes -/

/-- The bytes of `Writer::fixed64`, lowest first. -/
def encodeFixed64 (value : UInt64) : List UInt8 :=
  (List.range 8).map fun index => ((value >>> UInt64.ofNat (index * 8)) &&& 0xff).toUInt8

/-- One turn of the loop of `Reader::fixed64`. -/
def Reading.fixed64Step (index : Nat) (t : UInt64 × Reader) : Checked ε (UInt64 × Reader) := do
  let byte ← fetch t.2.bytes t.2.offset
  pure (t.1 ||| (byte.toUInt64 <<< UInt64.ofNat (index * 8)), t.2.skip 1)

/-- `Reader::fixed64`. -/
def Reading.readFixed64 (short : ε) : Reading ε UInt64 := fun r => do
  require (8 ≤ r.remaining) short
  forRange 8 fixed64Step (0, r)

theorem Reader.skip_succ (r : Reader) (n : Nat) : (r.skip n).skip 1 = r.skip (n + 1) := by
  rw [skip, skip, skip, Nat.add_assoc]

theorem encodeFixed64_eq (value : UInt64) :
    encodeFixed64 value =
      (List.range 8).map fun index => UInt8.ofNat (value.toNat / 2 ^ (8 * index)) := by
  rw [encodeFixed64]
  refine List.map_congr_left fun index hindex => ?_
  rw [List.mem_range] at hindex
  have hshift : (UInt64.ofNat (index * 8)).toNat = 8 * index := by
    rw [UInt64.toNat_ofNat', Nat.mod_eq_of_lt (by omega), Nat.mul_comm]
  rw [← UInt8.toNat_inj, UInt64.toNat_toUInt8, UInt64.toNat_and, UInt64.toNat_shiftRight, hshift,
    Nat.mod_eq_of_lt (show 8 * index < 64 by omega), Nat.shiftRight_eq_div_pow,
    show (0xff : UInt64).toNat = 2 ^ 8 - 1 from rfl, Nat.and_two_pow_sub_one_eq_mod, Nat.mod_mod,
    UInt8.toNat_ofNat']

@[simp] theorem length_encodeFixed64 (value : UInt64) : (encodeFixed64 value).length = 8 := by
  rw [encodeFixed64, List.length_map, List.length_range]

/-- A byte or-ed in at its place is added there. -/
theorem toNat_joinByte {value : UInt64} {byte : UInt8} {index : Nat} (hindex : index < 8)
    (hvalue : value.toNat < 2 ^ (8 * index)) :
    (value ||| (byte.toUInt64 <<< UInt64.ofNat (index * 8))).toNat =
      value.toNat + 2 ^ (8 * index) * byte.toNat := by
  have hbyte := byte.toNat_lt
  have hshift : (UInt64.ofNat (index * 8)).toNat = 8 * index := by
    rw [UInt64.toNat_ofNat', Nat.mod_eq_of_lt (by omega), Nat.mul_comm]
  have hfits : 2 ^ (8 * index) * byte.toNat < 2 ^ 64 := by
    calc 2 ^ (8 * index) * byte.toNat < 2 ^ (8 * index) * 2 ^ 8 :=
          Nat.mul_lt_mul_of_pos_left hbyte (Nat.two_pow_pos _)
      _ = 2 ^ (8 * index + 8) := (Nat.pow_add _ _ _).symm
      _ ≤ 2 ^ 64 := Nat.pow_le_pow_right (by decide) (by omega)
  rw [UInt64.toNat_or, UInt64.toNat_shiftLeft, UInt8.toNat_toUInt64, hshift,
    Nat.mod_eq_of_lt (show 8 * index < 64 by omega), Nat.shiftLeft_eq, Nat.mul_comm _ (2 ^ _),
    Nat.mod_eq_of_lt hfits, Nat.lor_comm, ← Nat.two_pow_add_eq_or_of_lt hvalue, Nat.add_comm]

theorem pow_byte_succ (index : Nat) : 2 ^ (8 * (index + 1)) = 2 ^ (8 * index) * 256 := by
  rw [Nat.mul_succ, Nat.pow_add]

theorem reads_readFixed64 (short : ε) (value : UInt64) :
    Reads (Reading.readFixed64 short) (encodeFixed64 value) value := by
  intro r rest hin h
  have hlen : 8 ≤ r.remaining := by
    have := Reader.remaining_of_rest h
    rwa [length_encodeFixed64] at this
  rw [encodeFixed64_eq] at h
  -- after `index` bytes the lowest `index` bytes of the word are there
  obtain ⟨⟨result, r'⟩, hloop, hnat, hr⟩ := @forRange_returns ε (UInt64 × Reader)
    Reading.fixed64Step
    (fun index t => t.1.toNat = value.toNat % 2 ^ (8 * index) ∧ t.2 = r.skip index) 8 (0, r)
    ⟨by simp [Nat.mod_one], rfl⟩ (by
      rintro index ⟨part, r₁⟩ hindex ⟨hpart, rfl⟩
      dsimp only at hpart
      have hbyte : (r.skip index).bytes[(r.skip index).offset]? =
          some (UInt8.ofNat (value.toNat / 2 ^ (8 * index))) := by
        show r.bytes[r.offset + index]? = _
        rw [← r.getElem?_rest, h, List.getElem?_append_left (by simpa using hindex),
          List.getElem?_map, List.getElem?_range hindex]
        rfl
      have hlt : part.toNat < 2 ^ (8 * index) := by
        rw [hpart]
        exact Nat.mod_lt _ (Nat.two_pow_pos _)
      refine ⟨_, by rw [Reading.fixed64Step, fetch_of_lt hbyte, ok_bind]; rfl, ?_,
        r.skip_succ index⟩
      dsimp only
      rw [toNat_joinByte hindex hlt, hpart, UInt8.toNat_ofNat', pow_byte_succ, Nat.mod_mul])
  rw [Reading.readFixed64, require, if_pos hlen]
  show forRange 8 _ (0, r) = _
  rw [hloop, length_encodeFixed64]
  dsimp only at hnat hr
  rw [hr, show result = value from ?_]
  rw [← UInt64.toNat_inj, hnat]
  exact Nat.mod_eq_of_lt value.toNat_lt

theorem consumes_readFixed64 (short : ε) :
    Consumes (Reading.readFixed64 short) fun value code => code = encodeFixed64 value := by
  intro r value r' hin hrun
  rw [Reading.readFixed64, bind_eq_ok] at hrun
  obtain ⟨u, hlen, hloop⟩ := hrun
  rw [require_eq_ok] at hlen
  have hinv := forRange_inv
    (P := fun index (t : UInt64 × Reader) => t.2 = r.skip index ∧ t.1.toNat < 2 ^ (8 * index) ∧
      r.rest.take index = (List.range index).map fun k => UInt8.ofNat (t.1.toNat / 2 ^ (8 * k)))
    ⟨rfl, by simp, rfl⟩ (by
      rintro index ⟨part, r₁⟩ ⟨part', r₂⟩ hindex ⟨rfl, hlt, htake⟩ hstep
      simp only [Reading.fixed64Step, bind_eq_ok, fetch_eq_ok, pure_eq_ok, Prod.mk.injEq] at hstep
      obtain ⟨byte, hbyte, rfl, rfl⟩ := hstep
      dsimp only at hlt htake hbyte ⊢
      have hsum := @toNat_joinByte part byte index hindex hlt
      have hb := byte.toNat_lt
      have hnext : r.rest[index]? = some byte := by
        rw [r.getElem?_rest]
        exact hbyte
      refine ⟨r.skip_succ index, ?_, ?_⟩
      · rw [hsum, pow_byte_succ]
        calc part.toNat + 2 ^ (8 * index) * byte.toNat
            < 2 ^ (8 * index) + 2 ^ (8 * index) * byte.toNat := by omega
          _ = 2 ^ (8 * index) * (byte.toNat + 1) := by rw [Nat.mul_add, Nat.mul_one, Nat.add_comm]
          _ ≤ 2 ^ (8 * index) * 256 := Nat.mul_le_mul_left _ hb
      · rw [List.take_add_one, hnext, List.range_succ, List.map_append, hsum, htake]
        refine congrArg₂ (· ++ ·) (List.map_congr_left fun k hk => ?_) ?_
        · -- the byte joined last stands above the ones before it
          rw [List.mem_range] at hk
          rw [← UInt8.toNat_inj, UInt8.toNat_ofNat', UInt8.toNat_ofNat',
            show 2 ^ (8 * index) = 2 ^ (8 * k) * (2 ^ 8 * 2 ^ (8 * (index - k - 1))) by
              rw [← Nat.pow_add, ← Nat.pow_add]; congr 1; omega,
            Nat.mul_assoc, Nat.add_mul_div_left _ _ (Nat.two_pow_pos _), Nat.mul_assoc,
            Nat.add_mul_mod_self_left]
        · rw [List.map_singleton, Nat.add_mul_div_left _ _ (Nat.two_pow_pos _),
            Nat.div_eq_of_lt hlt, Nat.zero_add, UInt8.ofNat_toNat]
          rfl) hloop
  obtain ⟨hr, -, htake⟩ := hinv
  dsimp only at hr htake
  subst hr
  refine ⟨_, hin.advanced hlen, ?_⟩
  rw [htake]
  exact (encodeFixed64_eq value).symm

theorem safelyReads_readFixed64 (short : ε) :
    SafelyReads (Reading.readFixed64 short) fun _ => True := by
  intro r hin
  refine Safely.bind (safely_require _ _) fun _ hlen => ?_
  have hbytes : r.offset + 8 ≤ r.bytes.length := by
    unfold Reader.remaining at hlen
    omega
  refine (@safely_forRange ε (UInt64 × Reader) _ (fun index t => t.2 = r.skip index) 8 (0, r) rfl
    ?_).mono fun t ht => ⟨trivial, ?_⟩
  · rintro index ⟨part, r₁⟩ hindex rfl
    refine Safely.bind (safely_fetch ?_) fun byte _ => safely_pure ?_
    · show r.offset + index < r.bytes.length
      omega
    · exact r.skip_succ index
  · rw [ht]
    exact hin.skip hlen

end RunD
