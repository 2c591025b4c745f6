/-
Reading values out of a byte array, and what it means for a reading to be the
inverse of an encoding.

A reading carries the array and the offset of the next byte as its state and
leaves early when the array is too short.  Three judgements speak about it.
`Reads p code a`: where `code` comes next, `p` returns `a` and stops behind
it.  `Consumes p Q`: whatever `p` returns, the bytes it went over satisfy `Q`
with it.  `SafelyReads p Q`: `p` never leaves the array, and a value it
returns satisfies `Q`.  The first is the round trip from value to bytes and
back, the second the one from bytes to value and back, and each of them has a
rule for every combinator.
-/
import RunD.Checked
import Mathlib.Data.Nat.Bitwise
import Mathlib.Algebra.Order.Ring.Nat

namespace RunD

variable {ε α β σ : Type}

/-! ### Little-endian words -/

/-- The four bytes of a word, lowest first. -/
def encodeU32 (value : UInt32) : List UInt8 :=
  [(value &&& 0xff).toUInt8, ((value >>> 8) &&& 0xff).toUInt8, ((value >>> 16) &&& 0xff).toUInt8,
    ((value >>> 24) &&& 0xff).toUInt8]

/-- The word of four bytes, lowest first. -/
def joinU32 (b₀ b₁ b₂ b₃ : UInt8) : UInt32 :=
  b₀.toUInt32 ||| (b₁.toUInt32 <<< 8) ||| (b₂.toUInt32 <<< 16) ||| (b₃.toUInt32 <<< 24)

theorem joinU32_toNat (b₀ b₁ b₂ b₃ : UInt8) :
    (joinU32 b₀ b₁ b₂ b₃).toNat =
      b₀.toNat + 2 ^ 8 * b₁.toNat + 2 ^ 16 * b₂.toNat + 2 ^ 24 * b₃.toNat := by
  have h₀ := b₀.toNat_lt
  have h₁ := b₁.toNat_lt
  have h₂ := b₂.toNat_lt
  have h₃ := b₃.toNat_lt
  have hshift : ∀ (b : UInt8) (k : UInt32), k.toNat ≤ 24 →
      (b.toUInt32 <<< k).toNat = 2 ^ k.toNat * b.toNat := by
    intro b k hk
    have hb := b.toNat_lt
    have hpow : 2 ^ k.toNat ≤ 2 ^ 24 := Nat.pow_le_pow_right (by decide) hk
    have hmul : b.toNat * 2 ^ k.toNat ≤ 255 * 2 ^ 24 := Nat.mul_le_mul (by omega) hpow
    rw [UInt32.toNat_shiftLeft, UInt8.toNat_toUInt32, Nat.shiftLeft_eq,
      Nat.mod_eq_of_lt (by omega : k.toNat < 32), Nat.mod_eq_of_lt (by omega), mul_comm]
  rw [joinU32, UInt32.toNat_or, UInt32.toNat_or, UInt32.toNat_or, hshift b₁ 8 (by decide),
    hshift b₂ 16 (by decide), hshift b₃ 24 (by decide), UInt8.toNat_toUInt32,
    show (8 : UInt32).toNat = 8 from rfl, show (16 : UInt32).toNat = 16 from rfl,
    show (24 : UInt32).toNat = 24 from rfl, Nat.lor_comm b₀.toNat,
    ← Nat.two_pow_add_eq_or_of_lt (show b₀.toNat < 2 ^ 8 by omega), Nat.lor_comm _ (2 ^ 16 * _),
    ← Nat.two_pow_add_eq_or_of_lt (by omega), Nat.lor_comm _ (2 ^ 24 * _),
    ← Nat.two_pow_add_eq_or_of_lt (by omega)]
  omega

/-- A byte of a word, as a number. -/
theorem byte_toNat (value shift : UInt32) (h : shift.toNat < 32) :
    ((value >>> shift) &&& 0xff).toUInt8.toNat = value.toNat / 2 ^ shift.toNat % 2 ^ 8 := by
  rw [UInt32.toNat_toUInt8, UInt32.toNat_and, UInt32.toNat_shiftRight, Nat.mod_eq_of_lt h,
    Nat.shiftRight_eq_div_pow, show (0xff : UInt32).toNat = 2 ^ 8 - 1 from rfl,
    Nat.and_two_pow_sub_one_eq_mod, Nat.mod_mod]

theorem encodeU32_eq (value : UInt32) :
    encodeU32 value = [UInt8.ofNat value.toNat, UInt8.ofNat (value.toNat / 2 ^ 8),
      UInt8.ofNat (value.toNat / 2 ^ 16), UInt8.ofNat (value.toNat / 2 ^ 24)] := by
  have hbyte : ∀ shift : UInt32, shift.toNat < 32 → ((value >>> shift) &&& 0xff).toUInt8 =
      UInt8.ofNat (value.toNat / 2 ^ shift.toNat) := by
    intro shift h
    rw [← UInt8.toNat_inj, byte_toNat value shift h, UInt8.toNat_ofNat']
  have h₀ := hbyte 0 (by decide)
  rw [show value >>> (0 : UInt32) = value by simp, show (0 : UInt32).toNat = 0 from rfl, pow_zero,
    Nat.div_one] at h₀
  rw [encodeU32, h₀, hbyte 8 (by decide), hbyte 16 (by decide), hbyte 24 (by decide)]
  rfl

theorem joinU32_encodeU32 (value : UInt32) :
    joinU32 (UInt8.ofNat value.toNat) (UInt8.ofNat (value.toNat / 2 ^ 8))
      (UInt8.ofNat (value.toNat / 2 ^ 16)) (UInt8.ofNat (value.toNat / 2 ^ 24)) = value := by
  have hv := value.toNat_lt
  rw [← UInt32.toNat_inj, joinU32_toNat]
  simp only [UInt8.toNat_ofNat']
  omega

theorem encodeU32_joinU32 (b₀ b₁ b₂ b₃ : UInt8) :
    encodeU32 (joinU32 b₀ b₁ b₂ b₃) = [b₀, b₁, b₂, b₃] := by
  have h₀ := b₀.toNat_lt
  have h₁ := b₁.toNat_lt
  have h₂ := b₂.toNat_lt
  have h₃ := b₃.toNat_lt
  rw [encodeU32_eq, joinU32_toNat]
  simp only [List.cons.injEq, ← UInt8.toNat_inj, UInt8.toNat_ofNat', and_true]
  refine ⟨?_, ?_, ?_, ?_⟩ <;> omega

@[simp] theorem length_encodeU32 (value : UInt32) : (encodeU32 value).length = 4 := rfl

/-- A byte string behind its length. -/
def encodeBytes (value : List UInt8) : List UInt8 :=
  encodeU32 (UInt32.ofNat value.length) ++ value

/-! ### The reader -/

/-- A byte array and the offset of the next byte. -/
structure Reader where
  bytes : List UInt8
  offset : Nat := 0
  deriving DecidableEq, Repr

/-- The bytes not read yet, counted. -/
def Reader.remaining (r : Reader) : Nat := r.bytes.length - r.offset

/-- The bytes not read yet. -/
def Reader.rest (r : Reader) : List UInt8 := r.bytes.drop r.offset

/-- The offset is inside the array or right behind it. -/
def Reader.Inside (r : Reader) : Prop := r.offset ≤ r.bytes.length

def Reader.skip (r : Reader) (n : Nat) : Reader := { r with offset := r.offset + n }

theorem Reader.length_rest (r : Reader) : r.rest.length = r.remaining := List.length_drop

theorem Reader.rest_skip (r : Reader) (n : Nat) : (r.skip n).rest = r.rest.drop n := by
  rw [rest, rest, skip, List.drop_drop]

/-- A computation over a reader that leaves early with an `ε`. -/
abbrev Reading (ε : Type) := StateT Reader (Checked ε)

namespace Reading

/-- A computation that does not read. -/
def lift (x : Checked ε α) : Reading ε α := fun r => do
  let a ← x
  pure (a, r)

/-- `read_u8`, with what the caller returns when the array is too short. -/
def readU8 (short : ε) : Reading ε UInt8 := fun r => do
  require (1 ≤ r.remaining) short
  let byte ← fetch r.bytes r.offset
  pure (byte, r.skip 1)

/-- `read_u32`. -/
def readU32 (short : ε) : Reading ε UInt32 := fun r => do
  require (4 ≤ r.remaining) short
  let b₀ ← fetch r.bytes r.offset
  let b₁ ← fetch r.bytes (r.offset + 1)
  let b₂ ← fetch r.bytes (r.offset + 2)
  let b₃ ← fetch r.bytes (r.offset + 3)
  pure (joinU32 b₀ b₁ b₂ b₃, r.skip 4)

/-- The next `n` bytes, by the iterators at their ends. -/
def slice (short : ε) (n : Nat) : Reading ε (List UInt8) := fun r => do
  require (n ≤ r.remaining) short
  if r.offset + n ≤ r.bytes.length then pure (r.rest.take n, r.skip n)
  else Except.error Stop.outOfBounds

/-- `read_bytes` and `read_string`. -/
def readBytes (short : ε) : Reading ε (List UInt8) := do
  let size ← readU32 short
  slice short size.toNat

/-- Leave unless `count` records of at least `unit` bytes can still follow. -/
def requireRoom (count unit : Nat) (result : ε) : Reading ε Unit := fun r => do
  require (count ≤ r.remaining / unit) result
  pure ((), r)

/-- Leave unless everything has been read. -/
def requireDone (result : ε) : Reading ε Unit := fun r => do
  require (r.offset = r.bytes.length) result
  pure ((), r)

/-- `for (i = 0; i < n; ++i) s = step(i, s)`, reading along the way. -/
def times (n : Nat) (step : Nat → σ → Reading ε σ) (s : σ) : Reading ε σ := fun r =>
  forRange n (fun i t => step i t.1 t.2) (s, r)

end Reading

theorem reading_bind (p : Reading ε α) (f : α → Reading ε β) (r : Reader) :
    (p >>= f) r = p r >>= fun x => f x.1 x.2 := rfl

theorem reading_pure (a : α) (r : Reader) : (pure a : Reading ε α) r = Except.ok (a, r) := rfl

theorem times_succ (n : Nat) (step : Nat → σ → Reading ε σ) (s : σ) :
    Reading.times (n + 1) step s = Reading.times n step s >>= step n := rfl

theorem Reader.Inside.skip {r : Reader} (h : r.Inside) {n : Nat} (hn : n ≤ r.remaining) :
    (r.skip n).Inside := by
  unfold Reader.Inside Reader.skip Reader.remaining at *
  dsimp only
  omega

theorem Reader.remaining_of_rest {r : Reader} {code rest : List UInt8}
    (h : r.rest = code ++ rest) : code.length ≤ r.remaining := by
  rw [← Reader.length_rest, h, List.length_append]
  omega

theorem Reader.getElem?_rest (r : Reader) (k : Nat) :
    r.rest[k]? = r.bytes[r.offset + k]? := List.getElem?_drop

/-! ### From the value to the bytes and back -/

/-- Where `code` comes next, `p` returns `a` and stops behind it. -/
def Reads (p : Reading ε α) (code : List UInt8) (a : α) : Prop :=
  ∀ (r : Reader) (rest : List UInt8), r.Inside → r.rest = code ++ rest →
    p r = Except.ok (a, r.skip code.length)

theorem reads_pure (a : α) : Reads (pure a : Reading ε α) [] a := fun _ _ _ _ => rfl

theorem Reads.bind {p : Reading ε α} {f : α → Reading ε β} {c₁ c₂ : List UInt8} {a : α} {b : β}
    (hp : Reads p c₁ a) (hf : Reads (f a) c₂ b) : Reads (p >>= f) (c₁ ++ c₂) b := by
  intro r rest hin h
  rw [List.append_assoc] at h
  have hin' : (r.skip c₁.length).Inside := hin.skip (Reader.remaining_of_rest h)
  have hrest : (r.skip c₁.length).rest = c₂ ++ rest := by
    rw [Reader.rest_skip, h, List.drop_left]
  rw [reading_bind, hp r (c₂ ++ rest) hin h, ok_bind, hf _ rest hin' hrest, Reader.skip,
    Reader.skip, Reader.skip, List.length_append, Nat.add_assoc]

/-- A reading that does not read comes before one that does. -/
theorem Reads.lift_bind {x : Checked ε α} {f : α → Reading ε β} {code : List UInt8} {a : α} {b : β}
    (hx : x = Except.ok a) (hf : Reads (f a) code b) : Reads (Reading.lift x >>= f) code b := by
  intro r rest hin h
  rw [reading_bind, Reading.lift, hx]
  exact hf r rest hin h

theorem Reads.require_bind {p : Prop} [Decidable p] {result : ε} {f : Unit → Reading ε β}
    {code : List UInt8} {b : β} (hp : p) (hf : Reads (f ()) code b) :
    Reads (Reading.lift (require p result) >>= f) code b :=
  Reads.lift_bind (require_eq_ok.mpr hp) hf

theorem Reads.room_bind {count unit : Nat} {result : ε} {p : Reading ε α} {code : List UInt8}
    {a : α} (hroom : count ≤ code.length / unit) (hp : Reads p code a) :
    Reads (Reading.requireRoom count unit result >>= fun _ => p) code a := by
  intro r rest hin h
  have hle : count ≤ r.remaining / unit :=
    hroom.trans (Nat.div_le_div_right (Reader.remaining_of_rest h))
  rw [reading_bind, Reading.requireRoom, require, if_pos hle]
  exact hp r rest hin h

theorem reads_readU8 (short : ε) (byte : UInt8) : Reads (Reading.readU8 short) [byte] byte := by
  intro r rest _ h
  have hlen : 1 ≤ r.remaining := Reader.remaining_of_rest h
  have hget : r.bytes[r.offset]? = some byte := by
    have := r.getElem?_rest 0
    rw [h] at this
    exact this.symm
  rw [Reading.readU8, require, if_pos hlen, fetch_of_lt hget]
  rfl

theorem reads_readU32 (short : ε) (value : UInt32) :
    Reads (Reading.readU32 short) (encodeU32 value) value := by
  intro r rest _ h
  have hlen : 4 ≤ r.remaining := Reader.remaining_of_rest h
  rw [encodeU32_eq] at h
  have hget : ∀ k b, r.rest[k]? = some b →
      (fetch r.bytes (r.offset + k) : Checked ε UInt8) = Except.ok b :=
    fun k b hk => fetch_of_lt (by rw [← r.getElem?_rest, hk])
  have h₀ := hget 0 _ (by rw [h]; rfl)
  have h₁ := hget 1 _ (by rw [h]; rfl)
  have h₂ := hget 2 _ (by rw [h]; rfl)
  have h₃ := hget 3 _ (by rw [h]; rfl)
  rw [Nat.add_zero] at h₀
  rw [Reading.readU32, require, if_pos hlen, h₀, h₁, h₂, h₃]
  show Except.ok (joinU32 _ _ _ _, r.skip 4) = _
  rw [joinU32_encodeU32, length_encodeU32]

theorem reads_slice (short : ε) (value : List UInt8) :
    Reads (Reading.slice short value.length) value value := by
  intro r rest hin h
  have hlen := Reader.remaining_of_rest h
  have hbound : r.offset + value.length ≤ r.bytes.length := by
    unfold Reader.remaining at hlen
    unfold Reader.Inside at hin
    omega
  rw [Reading.slice, require, if_pos hlen, if_pos hbound, h, List.take_left]
  rfl

theorem reads_readBytes (short : ε) {value : List UInt8} (h : value.length < 2 ^ 32) :
    Reads (Reading.readBytes short) (encodeBytes value) value := by
  refine (reads_readU32 short (UInt32.ofNat value.length)).bind ?_
  have hsize : (UInt32.ofNat value.length).toNat = value.length := by
    rw [UInt32.toNat_ofNat']
    exact Nat.mod_eq_of_lt h
  rw [hsize]
  exact reads_slice short value

/-- A loop whose step number `i` goes over `code i`. -/
theorem reads_times {f : Nat → σ → Reading ε σ} (state : Nat → σ) (code : Nat → List UInt8)
    (n : Nat) (hstep : ∀ i, i < n → Reads (f i (state i)) (code i) (state (i + 1))) :
    Reads (Reading.times n f (state 0)) ((List.range n).flatMap code) (state n) := by
  induction n with
  | zero => exact reads_pure (state 0)
  | succ n ih =>
      rw [times_succ, List.range_succ, List.flatMap_append, List.flatMap_singleton]
      exact (ih fun i hi => hstep i (by omega)).bind (hstep n (by omega))

/-! ### From the bytes to the value and back -/

/-- `r'` is `r` after going over `code`. -/
structure Advanced (r : Reader) (code : List UInt8) (r' : Reader) : Prop where
  bytes_eq : r'.bytes = r.bytes
  inside : r'.Inside
  rest_eq : r.rest = code ++ r'.rest

theorem Advanced.refl {r : Reader} (h : r.Inside) : Advanced r [] r := ⟨rfl, h, rfl⟩

theorem Advanced.trans {r₁ r₂ r₃ : Reader} {c₁ c₂ : List UInt8} (h₁ : Advanced r₁ c₁ r₂)
    (h₂ : Advanced r₂ c₂ r₃) : Advanced r₁ (c₁ ++ c₂) r₃ :=
  ⟨h₂.bytes_eq.trans h₁.bytes_eq, h₂.inside, by rw [h₁.rest_eq, h₂.rest_eq, List.append_assoc]⟩

/-- Going over the next `n` bytes. -/
theorem Reader.Inside.advanced {r : Reader} (h : r.Inside) {n : Nat} (hn : n ≤ r.remaining) :
    Advanced r (r.rest.take n) (r.skip n) :=
  ⟨rfl, h.skip hn, by rw [Reader.rest_skip, List.take_append_drop]⟩

/-- What `p` returns satisfies `Q` together with the bytes it went over. -/
def Consumes (p : Reading ε α) (Q : α → List UInt8 → Prop) : Prop :=
  ∀ r a r', r.Inside → p r = Except.ok (a, r') → ∃ code, Advanced r code r' ∧ Q a code

section Consumes

variable {Q : α → List UInt8 → Prop} {R : β → List UInt8 → Prop}

theorem Consumes.mono {p : Reading ε α} {Q' : α → List UInt8 → Prop} (h : Consumes p Q)
    (hQ : ∀ a code, Q a code → Q' a code) : Consumes p Q' := by
  intro r a r' hin hrun
  obtain ⟨code, hadv, hq⟩ := h r a r' hin hrun
  exact ⟨code, hadv, hQ a code hq⟩

theorem consumes_pure {a : α} (h : Q a []) : Consumes (pure a : Reading ε α) Q := by
  intro r b r' hin hrun
  rw [reading_pure, Except.ok.injEq, Prod.mk.injEq] at hrun
  obtain ⟨rfl, rfl⟩ := hrun
  exact ⟨[], Advanced.refl hin, h⟩

theorem Consumes.bind {p : Reading ε α} {f : α → Reading ε β} (hp : Consumes p Q)
    (hf : ∀ a c₁, Q a c₁ → Consumes (f a) fun b c₂ => R b (c₁ ++ c₂)) :
    Consumes (p >>= f) R := by
  intro r b r' hin hrun
  rw [reading_bind, bind_eq_ok] at hrun
  obtain ⟨⟨a, r₁⟩, hp', hf'⟩ := hrun
  obtain ⟨c₁, hadv₁, hq⟩ := hp r a r₁ hin hp'
  obtain ⟨c₂, hadv₂, hr⟩ := hf a c₁ hq r₁ b r' hadv₁.inside hf'
  exact ⟨c₁ ++ c₂, hadv₁.trans hadv₂, hr⟩

theorem consumes_lift {x : Checked ε α} (h : ∀ a, x = Except.ok a → Q a []) :
    Consumes (Reading.lift x) Q := by
  intro r a r' hin hrun
  rw [Reading.lift, bind_eq_ok] at hrun
  obtain ⟨b, hx, hpure⟩ := hrun
  rw [pure_eq_ok, Prod.mk.injEq] at hpure
  obtain ⟨rfl, rfl⟩ := hpure
  exact ⟨[], Advanced.refl hin, h b hx⟩

/-- What follows a check may assume it. -/
theorem Consumes.require_bind {p : Prop} [Decidable p] {result : ε} {f : Unit → Reading ε β}
    (hf : p → Consumes (f ()) R) : Consumes (Reading.lift (require p result) >>= f) R := by
  refine (consumes_lift (Q := fun _ c => c = [] ∧ p)
    fun _ h => ⟨rfl, require_eq_ok.mp h⟩).bind ?_
  rintro - - ⟨rfl, hp⟩
  exact hf hp

theorem consumes_requireRoom {count unit : Nat} {result : ε} {R : Unit → List UInt8 → Prop}
    (h : R () []) : Consumes (Reading.requireRoom count unit result) R := by
  intro r a r' hin hrun
  rw [Reading.requireRoom, bind_eq_ok] at hrun
  obtain ⟨_, -, hpure⟩ := hrun
  rw [pure_eq_ok, Prod.mk.injEq] at hpure
  obtain ⟨rfl, rfl⟩ := hpure
  exact ⟨[], Advanced.refl hin, h⟩

theorem consumes_readU8 (short : ε) :
    Consumes (Reading.readU8 short) fun byte code => code = [byte] := by
  intro r byte r' hin hrun
  simp only [Reading.readU8, bind_eq_ok, require_eq_ok, fetch_eq_ok, pure_eq_ok, exists_const,
    Prod.mk.injEq] at hrun
  obtain ⟨hlen, b, hget, rfl, rfl⟩ := hrun
  refine ⟨_, hin.advanced hlen, ?_⟩
  rw [← Nat.add_zero r.offset, ← r.getElem?_rest] at hget
  rw [← Nat.zero_add 1, List.take_add_one, hget]
  rfl

theorem consumes_readU32 (short : ε) :
    Consumes (Reading.readU32 short) fun value code => code = encodeU32 value := by
  intro r value r' hin hrun
  simp only [Reading.readU32, bind_eq_ok, require_eq_ok, fetch_eq_ok, pure_eq_ok, exists_const,
    Prod.mk.injEq] at hrun
  obtain ⟨hlen, b₀, h₀, b₁, h₁, b₂, h₂, b₃, h₃, rfl, rfl⟩ := hrun
  refine ⟨_, hin.advanced hlen, ?_⟩
  rw [← Nat.add_zero r.offset] at h₀
  rw [← r.getElem?_rest] at h₀ h₁ h₂ h₃
  rw [encodeU32_joinU32]
  have htake : ∀ n b, r.rest[n]? = some b → r.rest.take (n + 1) = r.rest.take n ++ [b] := by
    intro n b hb
    rw [List.take_add_one, hb]
    rfl
  rw [htake 3 b₃ h₃, htake 2 b₂ h₂, htake 1 b₁ h₁, htake 0 b₀ h₀]
  rfl

theorem consumes_slice (short : ε) (n : Nat) :
    Consumes (Reading.slice short n) fun value code => code = value ∧ value.length = n := by
  intro r value r' hin hrun
  simp only [Reading.slice, bind_eq_ok, require_eq_ok, exists_const] at hrun
  obtain ⟨hlen, hrun⟩ := hrun
  split at hrun
  · rw [pure_eq_ok, Prod.mk.injEq] at hrun
    obtain ⟨rfl, rfl⟩ := hrun
    refine ⟨_, hin.advanced hlen, rfl, ?_⟩
    rw [List.length_take, Reader.length_rest]
    omega
  · exact absurd hrun (by simp)

theorem consumes_readBytes (short : ε) :
    Consumes (Reading.readBytes short) fun value code =>
      code = encodeBytes value ∧ value.length < 2 ^ 32 := by
  refine (consumes_readU32 short).bind fun size c₁ hc₁ => ?_
  refine (consumes_slice short size.toNat).mono fun value c₂ hc₂ => ?_
  obtain ⟨hvalue, hlen⟩ := hc₂
  have hsize : UInt32.ofNat value.length = size := by rw [hlen, UInt32.ofNat_toNat]
  exact ⟨by rw [encodeBytes, hsize, hc₁, hvalue], hlen ▸ size.toNat_lt⟩

/-- The invariant rule of a loop: the invariant speaks of the bytes gone over so far. -/
theorem consumes_times {step : Nat → σ → Reading ε σ} (P : Nat → σ → List UInt8 → Prop) {n : Nat}
    {s : σ} (h0 : P 0 s [])
    (hstep : ∀ i t c₁, i < n → P i t c₁ →
      Consumes (step i t) fun t' c₂ => P (i + 1) t' (c₁ ++ c₂)) :
    Consumes (Reading.times n step s) (P n) := by
  induction n with
  | zero => exact consumes_pure h0
  | succ n ih =>
      rw [times_succ]
      refine (ih fun i t c₁ hi => hstep i t c₁ (by omega)).bind fun t c₁ ht => ?_
      exact hstep n t c₁ (by omega) ht

end Consumes

/-! ### Staying inside the bytes -/

/-- `p` never leaves the array, and a value it returns satisfies `Q`. -/
def SafelyReads (p : Reading ε α) (Q : α → Prop) : Prop :=
  ∀ r : Reader, r.Inside → Safely (p r) fun x => Q x.1 ∧ x.2.Inside

section Safely

variable {Q : α → Prop} {R : β → Prop}

theorem SafelyReads.mono {p : Reading ε α} {Q' : α → Prop} (h : SafelyReads p Q)
    (hQ : ∀ a, Q a → Q' a) : SafelyReads p Q' :=
  fun r hin => (h r hin).mono fun _ hx => ⟨hQ _ hx.1, hx.2⟩

theorem safelyReads_pure {a : α} (h : Q a) : SafelyReads (pure a : Reading ε α) Q :=
  fun _ hin => safely_pure ⟨h, hin⟩

theorem SafelyReads.bind {p : Reading ε α} {f : α → Reading ε β} (hp : SafelyReads p Q)
    (hf : ∀ a, Q a → SafelyReads (f a) R) : SafelyReads (p >>= f) R := by
  intro r hin
  rw [reading_bind]
  exact Safely.bind (hp r hin) fun x hx => hf x.1 hx.1 x.2 hx.2

theorem safelyReads_lift {x : Checked ε α} (h : Safely x Q) : SafelyReads (Reading.lift x) Q :=
  fun _ hin => Safely.bind h fun _ ha => safely_pure ⟨ha, hin⟩

theorem SafelyReads.require_bind {p : Prop} [Decidable p] {result : ε} {f : Unit → Reading ε β}
    (hf : p → SafelyReads (f ()) R) : SafelyReads (Reading.lift (require p result) >>= f) R :=
  (safelyReads_lift (safely_require p result)).bind fun _ hp => hf hp

theorem safelyReads_requireRoom (count unit : Nat) (result : ε) :
    SafelyReads (Reading.requireRoom count unit result) fun _ => True :=
  fun _ hin => Safely.bind (safely_require _ _) fun _ _ => safely_pure ⟨trivial, hin⟩

theorem safelyReads_requireDone (result : ε) :
    SafelyReads (Reading.requireDone result) fun _ => True :=
  fun _ hin => Safely.bind (safely_require _ _) fun _ _ => safely_pure ⟨trivial, hin⟩

theorem safelyReads_readU8 (short : ε) : SafelyReads (Reading.readU8 short) fun _ => True := by
  intro r hin
  refine Safely.bind (safely_require _ _) fun _ hlen => ?_
  have hlt : r.offset < r.bytes.length := by
    unfold Reader.remaining at hlen
    omega
  exact Safely.bind (safely_fetch hlt) fun _ _ => safely_pure ⟨trivial, hin.skip hlen⟩

theorem safelyReads_readU32 (short : ε) : SafelyReads (Reading.readU32 short) fun _ => True := by
  intro r hin
  refine Safely.bind (safely_require _ _) fun _ hlen => ?_
  have hlt : r.offset + 3 < r.bytes.length := by
    unfold Reader.remaining at hlen
    omega
  refine Safely.bind (safely_fetch (by omega)) fun _ _ => ?_
  refine Safely.bind (safely_fetch (by omega)) fun _ _ => ?_
  refine Safely.bind (safely_fetch (by omega)) fun _ _ => ?_
  refine Safely.bind (safely_fetch (by omega)) fun _ _ => ?_
  exact safely_pure ⟨trivial, hin.skip hlen⟩

theorem safelyReads_slice (short : ε) (n : Nat) :
    SafelyReads (Reading.slice short n) fun _ => True := by
  intro r hin
  refine Safely.bind (safely_require _ _) fun _ hlen => ?_
  have hbound : r.offset + n ≤ r.bytes.length := by
    unfold Reader.remaining at hlen
    unfold Reader.Inside at hin
    omega
  rw [if_pos hbound]
  exact safely_pure ⟨trivial, hin.skip hlen⟩

theorem safelyReads_readBytes (short : ε) :
    SafelyReads (Reading.readBytes short) fun _ => True :=
  (safelyReads_readU32 short).bind fun size _ => safelyReads_slice short size.toNat

/-- The invariant rule of a loop. -/
theorem safelyReads_times {step : Nat → σ → Reading ε σ} (P : Nat → σ → Prop) {n : Nat} {s : σ}
    (h0 : P 0 s) (hstep : ∀ i t, i < n → P i t → SafelyReads (step i t) (P (i + 1))) :
    SafelyReads (Reading.times n step s) (P n) := by
  induction n with
  | zero => exact safelyReads_pure h0
  | succ n ih =>
      rw [times_succ]
      exact (ih fun i t hi => hstep i t (by omega)).bind fun t ht => hstep n t (by omega) ht

end Safely

/-! ### Reading everything -/

/-- Read `bytes` with `p`, and leave with `trailing` when something is left. -/
def Reading.whole (p : Reading ε α) (trailing : ε) (bytes : List UInt8) : Checked ε α := do
  let (a, r) ← p { bytes := bytes }
  require (r.offset = r.bytes.length) trailing
  pure a

theorem Reads.whole_eq {p : Reading ε α} {code : List UInt8} {a : α} (h : Reads p code a)
    (trailing : ε) : Reading.whole p trailing code = Except.ok a := by
  have hrun := h { bytes := code } [] (Nat.zero_le _) (by rw [List.append_nil]; rfl)
  rw [Reading.whole, hrun, ok_bind]
  simp only [Reader.skip, Nat.zero_add, require, if_pos]
  rfl

/-- What follows behind the code is refused. -/
theorem Reads.whole_trailing {p : Reading ε α} {code extra : List UInt8} {a : α}
    (h : Reads p code a) (hextra : extra ≠ []) (trailing : ε) :
    Reading.whole p trailing (code ++ extra) = leave trailing := by
  have hrun := h { bytes := code ++ extra } extra (Nat.zero_le _) rfl
  have hpos := List.length_pos_iff.mpr hextra
  rw [Reading.whole, hrun, ok_bind]
  simp only [Reader.skip, Nat.zero_add, require]
  rw [if_neg (by rw [List.length_append]; omega)]
  rfl

theorem Consumes.of_whole {p : Reading ε α} {Q : α → List UInt8 → Prop} (h : Consumes p Q)
    {trailing : ε} {bytes : List UInt8} {a : α}
    (hrun : Reading.whole p trailing bytes = Except.ok a) : Q a bytes := by
  rw [Reading.whole, bind_eq_ok] at hrun
  obtain ⟨⟨b, r⟩, hp, hrest⟩ := hrun
  simp only [bind_eq_ok, require_eq_ok, pure_eq_ok, exists_const] at hrest
  obtain ⟨hdone, rfl⟩ := hrest
  obtain ⟨code, hadv, hq⟩ := h _ b r (Nat.zero_le _) hp
  have hall := hadv.rest_eq
  rw [Reader.rest, List.drop_zero, Reader.rest, hdone, List.drop_length, List.append_nil] at hall
  rw [show bytes = code from hall]
  exact hq

theorem SafelyReads.whole {p : Reading ε α} {Q : α → Prop} (h : SafelyReads p Q) (trailing : ε)
    (bytes : List UInt8) : Safely (Reading.whole p trailing bytes) Q :=
  Safely.bind (h _ (Nat.zero_le _)) fun _ hx =>
    Safely.require_bind fun _ => safely_pure hx.1

end RunD
