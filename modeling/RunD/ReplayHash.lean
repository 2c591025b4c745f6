/-
The two hashes of a replay.  Identities are made by mixing words one after the
other, a string by its length and its characters.  Byte strings are hashed by
the vendored XXH3, of which only this is known here: hashing a string piece by
piece is hashing it whole.
-/
import Mathlib.Tactic.Common

namespace RunD

def kFnvOffset : UInt64 := 1469598103934665603

def kFnvPrime : UInt64 := 1099511628211

/-- `Mix`. -/
def mix (hash value : UInt64) : UInt64 := (hash ^^^ value) * kFnvPrime

/-- Calls of `Mix` in a row. -/
def mixAll (hash : UInt64) (values : List UInt64) : UInt64 := values.foldl mix hash

/-- The bytes of a literal; the source hashes ASCII literals only. -/
def literalBytes (text : String) : List UInt8 := text.toList.map fun c => UInt8.ofNat c.toNat

/-- `MixString`. -/
def mixString (hash : UInt64) (text : List UInt8) : UInt64 :=
  mixAll (mix hash (UInt64.ofNat text.length)) (text.map UInt8.toUInt64)

/-- The hash of a domain name, where an identity begins. -/
def beginHash (domain : String) : UInt64 := mixString kFnvOffset (literalBytes domain)

def startHash (checkpointHash : UInt64) : UInt64 := mix (beginHash "rund.replay.start") checkpointHash

def genesisStartHash : UInt64 := startHash 0

/-! ### Byte strings -/

/-- `StableByteHasher` and `hash_bytes`: the states of the streaming hash, and the hash of a
string at once. -/
structure ByteHasher where
  State : Type
  start : State
  append : State → List UInt8 → State
  finish : State → UInt64
  hashBytes : List UInt8 → UInt64
  finish_append : ∀ pieces : List (List UInt8),
    finish (pieces.foldl append start) = hashBytes pieces.flatten

namespace ByteHasher

variable {H : ByteHasher}

/-- The state after a string went in, however it was cut. -/
def Absorbed (H : ByteHasher) (state : H.State) (bytes : List UInt8) : Prop :=
  ∃ pieces : List (List UInt8), pieces.foldl H.append H.start = state ∧ pieces.flatten = bytes

theorem absorbed_start : H.Absorbed H.start [] := ⟨[], rfl, rfl⟩

theorem Absorbed.append {state : H.State} {bytes : List UInt8} (h : H.Absorbed state bytes)
    (more : List UInt8) : H.Absorbed (H.append state more) (bytes ++ more) := by
  obtain ⟨pieces, rfl, rfl⟩ := h
  refine ⟨pieces ++ [more], ?_, ?_⟩
  · rw [List.foldl_append]
    rfl
  · rw [List.flatten_append, List.flatten_cons, List.flatten_nil, List.append_nil]

theorem Absorbed.finish {state : H.State} {bytes : List UInt8} (h : H.Absorbed state bytes) :
    H.finish state = H.hashBytes bytes := by
  obtain ⟨pieces, rfl, rfl⟩ := h
  exact H.finish_append pieces

/-- A hash of whole strings, taken as a streaming hash that collects its input. -/
def ofHash (hash : List UInt8 → UInt64) : ByteHasher where
  State := List UInt8
  start := []
  append := (· ++ ·)
  finish := hash
  hashBytes := hash
  finish_append pieces := by
    have hfold : ∀ (before : List UInt8), pieces.foldl (· ++ ·) before = before ++ pieces.flatten := by
      induction pieces with
      | nil => intro before; simp
      | cons piece pieces ih =>
          intro before
          rw [List.foldl_cons, ih, List.flatten_cons, List.append_assoc]
    rw [hfold, List.nil_append]

/-- `XXH64_avalanche`. -/
def xxh64Avalanche (hash : UInt64) : UInt64 :=
  let hash := (hash ^^^ (hash >>> 33)) * 0xC2B2AE3D27D4EB4F
  let hash := (hash ^^^ (hash >>> 29)) * 0x165667B19E3779F9
  hash ^^^ (hash >>> 32)

def kStableByteHashSeed : UInt64 := 0x72756e642e627974

/-- `XXH3_len_0to16_64b` of at most one byte, with the words of the default secret it reads there;
examples hash nothing longer. -/
def xxh3Short : List UInt8 → UInt64
  | [] => xxh64Avalanche (kStableByteHashSeed ^^^ (0x4c263a81e69035e0 ^^^ 0xcb00c391bb52283c))
  | c :: _ =>
      xxh64Avalanche
        (((c.toUInt64 <<< 16) ||| (c.toUInt64 <<< 24) ||| c.toUInt64 ||| ((1 : UInt64) <<< 8)) ^^^
          ((0x396cfeb8 ^^^ 0xbe4ba423) + kStableByteHashSeed))

end ByteHasher

end RunD
