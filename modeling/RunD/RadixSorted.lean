/-
The radix sort sorts stably.

A pass deals the table of its source into 256 buckets (`ends_sortPass`).  The
bucket of a pass is a byte of the key, with the sign turned over in the last one,
so that the bytes together are the rank of a key in the order asked for.  One
pass for each byte, the least significant first, therefore leaves the stable
sort of the input in the output columns (`radixSort_stable`), whatever was in
the arrays before.
-/
import Mathlib.Data.Nat.Bitwise
import Mathlib.Tactic.Ring
import RunD.RadixSort
import RunD.StableRadix

namespace RunD.Radix

variable {w : Nat} {E : String → Prop}

/-! ### Counters -/

/-- The number stored at a place of an array of long words. -/
def longAt (xs : List UInt64) (i : Nat) : Nat := (xs.getD i 0).toNat

theorem longAt_of_getElem? {xs : List UInt64} {i : Nat} {x : UInt64} (h : xs[i]? = some x) :
    longAt xs i = x.toNat := by
  rw [longAt, List.getD_eq_getElem?_getD, h, Option.getD_some]

theorem longAt_set {xs : List UInt64} {i : Nat} (hi : i < xs.length) (x : UInt64) (j : Nat) :
    longAt (xs.set i x) j = if j = i then x.toNat else longAt xs j := by
  by_cases hj : j = i
  · subst hj
    rw [if_pos rfl]
    exact longAt_of_getElem? (List.getElem?_set_self hi)
  · rw [if_neg hj, longAt, longAt, List.getD_eq_getElem?_getD, List.getD_eq_getElem?_getD,
      List.getElem?_set_ne (Ne.symm hj)]

/-- A long counter that does not wrap. -/
theorem toNat_next {x : UInt64} (h : x.toNat + 1 < 2 ^ 64) : (x + 1).toNat = x.toNat + 1 := by
  rw [UInt64.toNat_add]
  exact Nat.mod_eq_of_lt h

/-! ### The table of a pass -/

/-- A key with its value. -/
abbrev Entry (w : Nat) := BitVec w × UInt32

/-- The table that a pass reads, entry by entry. -/
structure Table (keys : List (BitVec w)) (valueAt : Nat → Sorting UInt32) (table : List (Entry w)) :
    Prop where
  short : table.length < 2 ^ 64
  keyOf : ∀ {index : Nat} {entry : Entry w}, table[index]? = some entry →
    keys[index]? = some entry.1
  valueOf : ∀ {index : Nat} {entry : Entry w}, table[index]? = some entry →
    valueAt index = Except.ok entry.2

section Pass

variable {keys : List (BitVec w)} {valueAt : Nat → Sorting UInt32} {table : List (Entry w)}
  {bucketOf : BitVec w → Nat}

/-- The bucket of an entry is that of its key. -/
def entryDigit (bucketOf : BitVec w → Nat) (entry : Entry w) : Nat := bucketOf entry.1

theorem entryDigit_eq (entry : Entry w) : entryDigit bucketOf entry = bucketOf entry.1 := rfl

/-- The table up to an entry, and the rest. -/
theorem split_at {index : Nat} {entry : Entry w} (h : table[index]? = some entry) :
    table = table.take index ++ entry :: table.drop (index + 1) ∧
      table.take (index + 1) = table.take index ++ [entry] := by
  obtain ⟨hlt, rfl⟩ := List.getElem?_eq_some_iff.mp h
  constructor
  · rw [List.getElem_cons_drop, List.take_append_drop]
  · rw [List.take_add_one, h]
    rfl

variable (htable : Table keys valueAt table) (hbucket : ∀ key, bucketOf key < 256)

include htable hbucket

theorem ends_countBuckets {counts : List UInt64} (hcounts : counts.length = 256) :
    Ends (countBuckets bucketOf table.length keys counts)
      (fun counts' => counts'.length = 256 ∧
        ∀ j < 256, longAt counts' j = (inBucket (entryDigit bucketOf) table j).length) E := by
  refine Ends.mono_post (ends_forRange (fun index (now : List UInt64) => now.length = 256 ∧
    ∀ j < 256, longAt now j =
      (inBucket (entryDigit bucketOf) (table.take index) j).length) ⟨?_, ?_⟩ ?_) ?_
  · rw [List.length_map, hcounts]
  · intro j hj
    have hzero : (counts.map fun _ => (0 : UInt64))[j]? = some 0 := by
      rw [List.getElem?_map, List.getElem?_eq_getElem (by omega)]
      rfl
    rw [longAt_of_getElem? hzero]
    rfl
  · rintro index now hindex ⟨hlen, hcount⟩
    have hentry : table[index]? = some table[index] := List.getElem?_eq_getElem hindex
    obtain ⟨hsplit, htake⟩ := split_at hentry
    rw [fetch_of_lt (htable.keyOf hentry), ok_bind]
    have hdigit := hbucket table[index].1
    refine Ends.bind (ends_fetch (by omega)) fun held hheld => ?_
    rw [assign_of_lt (by omega)]
    refine ⟨by rw [List.length_set, hlen], ?_⟩
    have hword : held.toNat =
        (inBucket (entryDigit bucketOf) (table.take index) (bucketOf table[index].1)).length := by
      rw [← longAt_of_getElem? hheld, hcount _ hdigit]
    have hbound : held.toNat + 1 < 2 ^ 64 := by
      have hle := List.length_filter_le
        (fun x => decide (entryDigit bucketOf x = bucketOf table[index].1)) (table.take index)
      rw [List.length_take] at hle
      have hshort := htable.short
      rw [hword, inBucket]
      omega
    intro j hj
    rw [longAt_set (by omega), htake, inBucket_concat, entryDigit_eq]
    by_cases hsame : j = bucketOf table[index].1
    · rw [if_pos hsame, if_pos hsame.symm, toNat_next hbound, hword, List.length_append, ← hsame]
      rfl
    · rw [if_neg hsame, if_neg (Ne.symm hsame), hcount j hj]
  · rintro now ⟨hlen, hcount⟩
    rw [List.take_length] at hcount
    exact ⟨hlen, hcount⟩

theorem ends_placeBuckets {counts offsets : List UInt64} (hcounts : counts.length = 256)
    (hoffsets : offsets.length = 256)
    (hcount : ∀ j < 256, longAt counts j = (inBucket (entryDigit bucketOf) table j).length) :
    Ends (placeBuckets counts offsets)
      (fun placed => placed.2.length = 256 ∧
        ∀ j < 256, longAt placed.2 j = bucketStart (entryDigit bucketOf) table j) E := by
  have hdigit : ∀ x ∈ table, entryDigit bucketOf x < 256 := fun x _ => hbucket x.1
  refine Ends.mono_post (ends_forRange (fun bucket (state : UInt64 × List UInt64) =>
    state.1.toNat = bucketStart (entryDigit bucketOf) table bucket ∧ state.2.length = 256 ∧
    ∀ j < bucket, longAt state.2 j = bucketStart (entryDigit bucketOf) table j) ?_ ?_) ?_
  · exact ⟨rfl, hoffsets, fun j hj => absurd hj (Nat.not_lt_zero j)⟩
  · rintro bucket state hlt ⟨hrunning, hlen, hplaced⟩
    rw [hcounts] at hlt
    rw [assign_of_lt (by omega), ok_bind]
    refine Ends.bind (ends_fetch (by omega)) fun held hheld => ?_
    have hword : held.toNat = (inBucket (entryDigit bucketOf) table bucket).length := by
      rw [← longAt_of_getElem? hheld, hcount bucket hlt]
    have hnext : bucketStart (entryDigit bucketOf) table (bucket + 1) =
        state.1.toNat + held.toNat := by
      rw [bucketStart, startOf_succ, hrunning, hword, bucketStart]
    have hle := bucketStart_le hdigit hlt
    have hshort := htable.short
    refine ends_pure ⟨?_, by rw [List.length_set, hlen], ?_⟩
    · rw [hnext, UInt64.toNat_add, Nat.mod_eq_of_lt (by omega)]
    · intro j hj
      rw [longAt_set (by omega)]
      by_cases hsame : j = bucket
      · rw [if_pos hsame, hrunning, hsame]
      · rw [if_neg hsame]
        exact hplaced j (by omega)
  · rintro ⟨running, offsets⟩ ⟨-, hlen, hplaced⟩
    rw [hcounts] at hplaced
    exact ⟨hlen, hplaced⟩

/-- The state of the writing loop after some entries. -/
structure Scattered (bucketOf : BitVec w → Nat) (table seen : List (Entry w)) (target : Columns w)
    (state : List UInt64 × Columns w) : Prop where
  offsets_length : state.1.length = 256
  offset : ∀ j < 256, longAt state.1 j = bucketStart (entryDigit bucketOf) table j +
    (inBucket (entryDigit bucketOf) seen j).length
  keys_length : state.2.keys.length = target.keys.length
  values_length : state.2.values.length = target.values.length
  keys_filled : Filled Prod.fst (entryDigit bucketOf) 256 table seen state.2.keys
  values_filled : Filled Prod.snd (entryDigit bucketOf) 256 table seen state.2.values
  keys_rest : state.2.keys.drop table.length = target.keys.drop table.length
  values_rest : state.2.values.drop table.length = target.values.drop table.length

/-- A table fits into columns. -/
def Columns.Fits (target : Columns w) (count : Nat) : Prop :=
  count ≤ target.keys.length ∧ count ≤ target.values.length

theorem ends_scatterColumns {offsets : List UInt64} {target : Columns w}
    (hoffsets : offsets.length = 256) (hfits : target.Fits table.length)
    (hplaced : ∀ j < 256, longAt offsets j = bucketStart (entryDigit bucketOf) table j) :
    Ends (scatterColumns bucketOf table.length keys valueAt offsets target)
      (fun state => Scattered bucketOf table table target state) E := by
  have hdigit : ∀ x ∈ table, entryDigit bucketOf x < 256 := fun x _ => hbucket x.1
  refine Ends.mono_post (ends_forRange (fun index state =>
    Scattered bucketOf table (table.take index) target state) ?_ ?_) ?_
  · exact ⟨hoffsets, fun j hj => by rw [hplaced j hj]; rfl, rfl, rfl, Filled.start _,
      Filled.start _, rfl, rfl⟩
  · intro index state hindex h
    have hentry : table[index]? = some table[index] := List.getElem?_eq_getElem hindex
    obtain ⟨hsplit, htake⟩ := split_at hentry
    have hplace := place_lt hdigit hsplit
    have hlt := hbucket table[index].1
    have hoffsets := h.offsets_length
    have hkeysLength := h.keys_length
    have hvaluesLength := h.values_length
    have hshort := htable.short
    obtain ⟨hfitKeys, hfitValues⟩ := hfits
    rw [fetch_of_lt (htable.keyOf hentry), ok_bind]
    refine Ends.bind (ends_fetch (by omega)) fun out hout => ?_
    have hword : out.toNat = bucketStart (entryDigit bucketOf) table (bucketOf table[index].1) +
        (inBucket (entryDigit bucketOf) (table.take index) (bucketOf table[index].1)).length := by
      rw [← longAt_of_getElem? hout]
      exact h.offset _ hlt
    have hinside : out.toNat < table.length := by
      rw [hword]
      exact hplace
    rw [assign_of_lt (by omega), ok_bind, assign_of_lt (by omega), ok_bind,
      htable.valueOf hentry, ok_bind, assign_of_lt (by omega), ok_bind]
    refine ends_pure ⟨?_, ?_, ?_, ?_, ?_, ?_, ?_, ?_⟩
    · rw [List.length_set, hoffsets]
    · intro j hj
      rw [longAt_set (by omega), htake, inBucket_concat, entryDigit_eq]
      by_cases hsame : j = bucketOf table[index].1
      · rw [if_pos hsame, if_pos hsame.symm, toNat_next (by omega), hword, List.length_append,
          ← hsame]
        rfl
      · rw [if_neg hsame, if_neg (Ne.symm hsame)]
        exact h.offset j hj
    · rw [List.length_set, hkeysLength]
    · rw [List.length_set, hvaluesLength]
    · rw [htake, hword]
      exact h.keys_filled.write hsplit hdigit (by omega)
    · rw [htake, hword]
      exact h.values_filled.write hsplit hdigit (by omega)
    · rw [List.drop_set_of_lt hinside]
      exact h.keys_rest
    · rw [List.drop_set_of_lt hinside]
      exact h.values_rest
  · intro state h
    rw [List.take_length] at h
    exact h

end Pass

/-! ### From columns to columns -/

/-- The first entries of two columns, side by side. -/
def Columns.table (columns : Columns w) (count : Nat) : List (Entry w) :=
  (columns.keys.take count).zip (columns.values.take count)

theorem Columns.length_table {columns : Columns w} {count : Nat} (h : columns.Fits count) :
    (columns.table count).length = count := by
  obtain ⟨hkeys, hvalues⟩ := h
  rw [table, List.length_zip, List.length_take, List.length_take]
  omega

/-- What a pass leaves of its target. -/
structure Written (count : Nat) (sorted : List (Entry w)) (target written : Columns w) : Prop where
  table_eq : written.table count = sorted
  keys_length : written.keys.length = target.keys.length
  values_length : written.values.length = target.values.length
  keys_rest : written.keys.drop count = target.keys.drop count
  values_rest : written.values.drop count = target.values.drop count

theorem Written.fits {count : Nat} {sorted : List (Entry w)} {target written : Columns w}
    (h : Written count sorted target written) (hfits : target.Fits count) : written.Fits count := by
  rw [Columns.Fits, h.keys_length, h.values_length]
  exact hfits

/-- **A pass deals the table of its source into its target.** -/
theorem ends_sortPass {keys : List (BitVec w)} {valueAt : Nat → Sorting UInt32}
    {table : List (Entry w)} {bucketOf : BitVec w → Nat} (htable : Table keys valueAt table)
    (hbucket : ∀ key, bucketOf key < 256) {target : Columns w} {counts offsets : List UInt64}
    (hcounts : counts.length = 256) (hoffsets : offsets.length = 256)
    (hfits : target.Fits table.length) :
    Ends (sortPass bucketOf table.length keys valueAt target counts offsets)
      (fun result => result.1.length = 256 ∧ result.2.1.length = 256 ∧
        Written table.length (byBucket (entryDigit bucketOf) 256 table) target result.2.2) E := by
  rw [sortPass]
  refine Ends.bind (ends_countBuckets htable hbucket hcounts) ?_
  rintro counts' ⟨hcounts', hcount⟩
  refine Ends.bind (ends_placeBuckets htable hbucket hcounts' hoffsets hcount) ?_
  rintro placed ⟨hplacedLength, hplaced⟩
  refine Ends.bind (ends_scatterColumns htable hbucket hplacedLength hfits hplaced) ?_
  intro state h
  have hdigit : ∀ x ∈ table, entryDigit bucketOf x < 256 := fun x _ => hbucket x.1
  refine ends_pure ⟨hcounts', h.offsets_length, ?_, h.keys_length, h.values_length, h.keys_rest,
    h.values_rest⟩
  rw [Columns.table, h.keys_filled.take_eq hdigit, h.values_filled.take_eq hdigit]
  exact (List.zip_of_prod rfl rfl).symm

theorem table_of_columns {columns : Columns w} {count : Nat} (hshort : count < 2 ^ 64)
    (hfits : columns.Fits count) :
    Table columns.keys (fun index => fetch columns.values index) (columns.table count) := by
  have hentry : ∀ {index : Nat} {entry : Entry w}, (columns.table count)[index]? = some entry →
      columns.keys[index]? = some entry.1 ∧ columns.values[index]? = some entry.2 := by
    intro index entry h
    rw [Columns.table, List.getElem?_zip_eq_some] at h
    obtain ⟨hkey, hvalue⟩ := h
    rw [List.getElem?_take] at hkey hvalue
    split at hkey
    · rename_i hlt
      rw [if_pos hlt] at hvalue
      exact ⟨hkey, hvalue⟩
    · exact absurd hkey (by simp)
  refine ⟨by rw [Columns.length_table hfits]; exact hshort, fun h => (hentry h).1, ?_⟩
  intro index entry h
  exact fetch_of_lt (hentry h).2

/-! ### Digits -/

theorem sortBucket_lt (key : BitVec w) (pass passCount : UInt32) (signedOrder : Bool) :
    (sortBucket key pass passCount signedOrder).toNat < 256 := by
  have hbyte : (UInt32.ofNat ((key >>> (pass * 8).toNat) &&& 0xff).toNat).toNat < 256 := by
    have hand : ((key >>> (pass * 8).toNat) &&& 0xff).toNat < 256 := by
      rw [BitVec.toNat_and]
      refine Nat.lt_of_le_of_lt Nat.and_le_right ?_
      exact Nat.lt_of_le_of_lt (Nat.mod_le _ _) (by decide)
    rw [UInt32.toNat_ofNat', Nat.mod_eq_of_lt (by omega)]
    exact hand
  unfold sortBucket
  simp only
  split
  · rw [UInt32.toNat_xor]
    exact Nat.xor_lt_two_pow (n := 8) hbyte (by decide)
  · exact hbyte

/-- The byte of a key that a pass sorts by, before the sign is turned over. -/
def byteAt (key : BitVec w) (pass : Nat) : Nat := key.toNat / 256 ^ pass % 256

/-- The digit of a key in a pass. -/
def digitAt (key : BitVec w) (passes : Nat) (signedOrder : Bool) (pass : Nat) : Nat :=
  if signedOrder = true ∧ pass + 1 = passes then (byteAt key pass + 128) % 256
  else byteAt key pass

theorem turn_over : ∀ byte < 256, (UInt32.ofNat byte ^^^ 0x80).toNat = (byte + 128) % 256 := by
  set_option maxRecDepth 2000 in
  decide

/-- The passes of a key of so many bytes. -/
structure Width (w : Nat) (passCount : UInt32) : Prop where
  bits : w = 8 * passCount.toNat
  few : passCount.toNat ≤ 8
  even : passCount.toNat % 2 = 0
  pos : 0 < passCount.toNat

theorem sortBucket_toNat {passCount : UInt32} (hwidth : Width w passCount) (key : BitVec w)
    (signedOrder : Bool) {pass : Nat} (hpass : pass < passCount.toNat) :
    (sortBucket key (UInt32.ofNat pass) passCount signedOrder).toNat =
      digitAt key passCount.toNat signedOrder pass := by
  have hbits := hwidth.bits
  have hfew := hwidth.few
  have hnumber : (UInt32.ofNat pass).toNat = pass := by
    rw [UInt32.toNat_ofNat', Nat.mod_eq_of_lt (by omega)]
  have hshift : (UInt32.ofNat pass * 8).toNat = 8 * pass := by
    rw [UInt32.toNat_mul, hnumber, Nat.mod_eq_of_lt (by show pass * 8 < _; omega), Nat.mul_comm]
    rfl
  have hmask : (0xff : BitVec w).toNat = 2 ^ 8 - 1 := by
    show 255 % 2 ^ w = 255
    have hle : (2 : Nat) ^ 8 ≤ 2 ^ w := Nat.pow_le_pow_right (by decide) (by omega)
    exact Nat.mod_eq_of_lt (by omega)
  have hbyte : ((key >>> (UInt32.ofNat pass * 8).toNat) &&& 0xff).toNat = byteAt key pass := by
    rw [BitVec.toNat_and, BitVec.toNat_ushiftRight, hshift, hmask,
      Nat.and_two_pow_sub_one_eq_mod, Nat.shiftRight_eq_div_pow, Nat.pow_mul]
    rfl
  have hlast : UInt32.ofNat pass + 1 = passCount ↔ pass + 1 = passCount.toNat := by
    rw [← UInt32.toNat_inj, UInt32.toNat_add, hnumber,
      Nat.mod_eq_of_lt (by show pass + 1 < _; omega)]
    rfl
  have hlt : byteAt key pass < 256 := Nat.mod_lt _ (by decide)
  unfold sortBucket
  rw [hbyte]
  simp only [digitAt, hlast]
  split
  · exact turn_over _ hlt
  · rw [UInt32.toNat_ofNat', Nat.mod_eq_of_lt (by omega)]

/-- The rank that the first passes sort by. -/
def rankUpTo (passes : Nat) (signedOrder : Bool) (key : BitVec w) : Nat → Nat
  | 0 => 0
  | pass + 1 =>
      digitAt key passes signedOrder pass * 256 ^ pass + rankUpTo passes signedOrder key pass

theorem rankUpTo_lt (passes : Nat) (signedOrder : Bool) (key : BitVec w) (pass : Nat) :
    rankUpTo passes signedOrder key pass < 256 ^ pass := by
  induction pass with
  | zero => exact Nat.one_pos
  | succ pass ih =>
      have hdigit : digitAt key passes signedOrder pass < 256 := by
        unfold digitAt
        split <;> exact Nat.mod_lt _ (by decide)
      calc digitAt key passes signedOrder pass * 256 ^ pass +
            rankUpTo passes signedOrder key pass
          < digitAt key passes signedOrder pass * 256 ^ pass + 256 ^ pass := by omega
        _ = (digitAt key passes signedOrder pass + 1) * 256 ^ pass := by
            rw [Nat.add_mul, Nat.one_mul]
        _ ≤ 256 * 256 ^ pass := Nat.mul_le_mul_right _ hdigit
        _ = 256 ^ (pass + 1) := by rw [Nat.pow_succ, Nat.mul_comm]

/-- Before the sign matters, the rank is the low part of the key. -/
theorem rankUpTo_eq_mod (passes : Nat) (signedOrder : Bool) (key : BitVec w) {pass : Nat}
    (h : signedOrder = false ∨ pass < passes) :
    rankUpTo passes signedOrder key pass = key.toNat % 256 ^ pass := by
  induction pass with
  | zero => rw [rankUpTo, Nat.pow_zero, Nat.mod_one]
  | succ pass ih =>
      have hdigit : digitAt key passes signedOrder pass = byteAt key pass := by
        refine if_neg ?_
        rintro ⟨hsigned, hlast⟩
        rcases h with h | h
        · rw [h] at hsigned
          exact absurd hsigned (by decide)
        · omega
      rw [rankUpTo, hdigit, ih (by rcases h with h | h; exact Or.inl h; exact Or.inr (by omega)),
        Nat.mod_pow_succ, byteAt, Nat.mul_comm, Nat.add_comm]

/-- The order of keys that is asked for. -/
def keyLe (signedOrder : Bool) (a b : BitVec w) : Prop :=
  if signedOrder then a.toInt ≤ b.toInt else a.toNat ≤ b.toNat

/-- The rank of a signed key is the key from the least one on. -/
theorem rank_signed {passes : Nat} (hbits : w = 8 * passes) (hpos : 0 < passes) (key : BitVec w) :
    (rankUpTo passes true key passes : Int) = key.toInt + 128 * 256 ^ (passes - 1) := by
  obtain ⟨pass, rfl⟩ : ∃ pass, passes = pass + 1 := ⟨passes - 1, by omega⟩
  have hlt := key.isLt
  have hwide : 2 ^ w = 256 * 256 ^ pass := by
    rw [hbits, Nat.pow_mul, ← Nat.pow_succ']
  rw [hwide] at hlt
  have hpow : 0 < 256 ^ pass := Nat.pow_pos (by decide)
  have hbyte : byteAt key pass = key.toNat / 256 ^ pass := by
    rw [byteAt, Nat.mod_eq_of_lt]
    rw [Nat.div_lt_iff_lt_mul hpow]
    exact hlt
  have hdigit : digitAt key (pass + 1) true pass = (byteAt key pass + 128) % 256 :=
    if_pos ⟨rfl, rfl⟩
  have hsplit := Nat.div_add_mod key.toNat (256 ^ pass)
  have hrest := Nat.mod_lt key.toNat hpow
  rw [rankUpTo, hdigit, rankUpTo_eq_mod _ _ _ (Or.inr (Nat.lt_succ_self pass)), hbyte,
    BitVec.toInt_eq_toNat_cond, hwide, Nat.add_sub_cancel]
  rw [← hbyte] at hsplit ⊢
  have hbyteLt : byteAt key pass < 256 := Nat.mod_lt _ (by decide)
  generalize byteAt key pass = byte at *
  generalize key.toNat % 256 ^ pass = rest at *
  by_cases hsmall : byte < 128
  · have hmul : 256 ^ pass * byte ≤ 256 ^ pass * 127 := Nat.mul_le_mul_left _ (by omega)
    have hturn : (byte + 128) % 256 = byte + 128 := Nat.mod_eq_of_lt (by omega)
    rw [if_pos (by omega), hturn]
    push_cast
    rw [← hsplit]
    push_cast
    ring
  · have hmul : 256 ^ pass * 128 ≤ 256 ^ pass * byte := Nat.mul_le_mul_left _ (by omega)
    have hturn : (byte + 128) % 256 = byte - 128 := by omega
    rw [if_neg (by omega), hturn]
    rw [← hsplit]
    have hsub : ((byte - 128 : Nat) : Int) = byte - 128 := by omega
    push_cast
    rw [hsub]
    ring

theorem keyLe_iff {passCount : UInt32} (hwidth : Width w passCount) (signedOrder : Bool)
    (a b : BitVec w) :
    keyLe signedOrder a b ↔ rankUpTo passCount.toNat signedOrder a passCount.toNat ≤
      rankUpTo passCount.toNat signedOrder b passCount.toNat := by
  cases signedOrder with
  | true =>
      have ha := rank_signed hwidth.bits hwidth.pos a
      have hb := rank_signed hwidth.bits hwidth.pos b
      show a.toInt ≤ b.toInt ↔ _
      omega
  | false =>
      have hwide : 256 ^ passCount.toNat = 2 ^ w := by
        rw [hwidth.bits, Nat.pow_mul]
      show a.toNat ≤ b.toNat ↔ _
      rw [rankUpTo_eq_mod _ _ a (Or.inl rfl), rankUpTo_eq_mod _ _ b (Or.inl rfl), hwide,
        Nat.mod_eq_of_lt a.isLt, Nat.mod_eq_of_lt b.isLt]

/-- Keys of one rank are equal. -/
theorem rank_inj {passCount : UInt32} (hwidth : Width w passCount) (signedOrder : Bool)
    {a b : BitVec w} :
    rankUpTo passCount.toNat signedOrder a passCount.toNat =
      rankUpTo passCount.toNat signedOrder b passCount.toNat ↔ a = b := by
  constructor
  · intro h
    have hle := (keyLe_iff hwidth signedOrder a b).mpr (Nat.le_of_eq h)
    have hge := (keyLe_iff hwidth signedOrder b a).mpr (Nat.le_of_eq h.symm)
    cases signedOrder with
    | true => exact BitVec.eq_of_toInt_eq (Int.le_antisymm hle hge)
    | false => exact BitVec.eq_of_toNat_eq (Nat.le_antisymm hle hge)
  · rintro rfl
    rfl

/-! ### The whole sort -/

/-- The pairs that are sorted: each key with its value, or with its place. -/
def inputTable (input : Columns w) (count : Nat) (identityValues : Bool) : List (Entry w) :=
  (input.keys.take count).zip
    (if identityValues then (List.range count).map UInt32.ofNat else input.values.take count)

/-- What a sort reads is there. -/
def Readable (input : Columns w) (count : Nat) (identityValues : Bool) : Prop :=
  count ≤ input.keys.length ∧ (identityValues = false → count ≤ input.values.length)

section Runs

variable {input : Columns w} {count : Nat} {identityValues signedOrder : Bool}

theorem length_inputTable (h : Readable input count identityValues) :
    (inputTable input count identityValues).length = count := by
  obtain ⟨hkeys, hvalues⟩ := h
  cases identityValues with
  | true =>
      rw [inputTable, if_pos rfl, List.length_zip, List.length_take, List.length_map,
        List.length_range]
      omega
  | false =>
      have hvalues := hvalues rfl
      rw [inputTable, if_neg (by decide), List.length_zip, List.length_take, List.length_take]
      omega

/-- The first pass reads the input, and makes the values up when they are places. -/
theorem table_of_input (hshort : count < 2 ^ 64) (h : Readable input count identityValues) :
    Table input.keys
      (fun index => if 0 = 0 ∧ identityValues = true then pure (UInt32.ofNat index)
        else fetch input.values index) (inputTable input count identityValues) := by
  refine ⟨by rw [length_inputTable h]; exact hshort, ?_, ?_⟩
  · intro index entry hentry
    rw [inputTable, List.getElem?_zip_eq_some] at hentry
    have hkey := hentry.1
    rw [List.getElem?_take] at hkey
    split at hkey
    · exact hkey
    · exact absurd hkey (by simp)
  · intro index entry hentry
    rw [inputTable, List.getElem?_zip_eq_some] at hentry
    have hvalue := hentry.2
    cases identityValues with
    | true =>
        rw [if_pos rfl, List.getElem?_map, Option.map_eq_some_iff] at hvalue
        obtain ⟨place, hplace, hvalue⟩ := hvalue
        obtain ⟨hlt, hplace⟩ := List.getElem?_eq_some_iff.mp hplace
        rw [List.getElem_range] at hplace
        rw [if_pos ⟨rfl, rfl⟩, hplace, hvalue]
        rfl
    | false =>
        rw [if_neg (by decide), List.getElem?_take] at hvalue
        rw [if_neg (by simp)]
        split at hvalue
        · exact fetch_of_lt hvalue
        · exact absurd hvalue (by simp)

/-- Where the entries stand before a pass. -/
def current (input : Columns w) (count : Nat) (identityValues : Bool) (pass : Nat)
    (state : SortState w) : List (Entry w) :=
  if pass = 0 then inputTable input count identityValues
  else if pass % 2 = 1 then state.temp.table count else state.output.table count

/-- The state before a pass. -/
structure Passed (input : Columns w) (count passes : Nat) (identityValues signedOrder : Bool)
    (start : SortState w) (pass : Nat) (state : SortState w) : Prop where
  counts_length : state.counts.length = 256
  offsets_length : state.offsets.length = 256
  output_fits : state.output.Fits count
  temp_fits : state.temp.Fits count
  keys_length : state.output.keys.length = start.output.keys.length
  values_length : state.output.values.length = start.output.values.length
  keys_rest : state.output.keys.drop count = start.output.keys.drop count
  values_rest : state.output.values.drop count = start.output.values.drop count
  sorted : StableBy (fun entry => rankUpTo passes signedOrder entry.1 pass)
    (inputTable input count identityValues) (current input count identityValues pass state)

/-- A pass sorts by one more digit. -/
theorem Passed.next {passCount : UInt32} (hwidth : Width w passCount) {start state : SortState w}
    {pass : Nat} (hpass : pass < passCount.toNat) (hshort : count < 2 ^ 64)
    (hinput : Readable input count identityValues)
    (h : Passed input count passCount.toNat identityValues signedOrder start pass state) :
    Ends (runPass input count passCount identityValues signedOrder pass state)
      (Passed input count passCount.toNat identityValues signedOrder start (pass + 1)) E := by
  -- the source of the pass, as a table
  have hsource : Table
      (if pass = 0 then input else if pass % 2 = 1 then state.temp else state.output).keys
      (fun index => if pass = 0 ∧ identityValues = true then pure (UInt32.ofNat index)
        else fetch
          (if pass = 0 then input else if pass % 2 = 1 then state.temp else state.output).values
          index)
      (current input count identityValues pass state) ∧
      (current input count identityValues pass state).length = count := by
    unfold current
    by_cases hzero : pass = 0
    · subst hzero
      exact ⟨table_of_input hshort hinput, length_inputTable hinput⟩
    · simp only [hzero, false_and, if_false]
      by_cases hodd : pass % 2 = 1
      · simp only [if_pos hodd]
        exact ⟨table_of_columns hshort h.temp_fits, Columns.length_table h.temp_fits⟩
      · simp only [if_neg hodd]
        exact ⟨table_of_columns hshort h.output_fits, Columns.length_table h.output_fits⟩
  obtain ⟨htable, hlength⟩ := hsource
  have hbucket : ∀ key : BitVec w,
      (sortBucket key (UInt32.ofNat pass) passCount signedOrder).toNat < 256 := fun key =>
    sortBucket_lt key _ _ _
  -- dealing by the digit of the pass
  have hdeal : StableBy (fun entry : Entry w =>
        rankUpTo passCount.toNat signedOrder entry.1 (pass + 1))
      (inputTable input count identityValues)
      (byBucket (entryDigit fun key : BitVec w =>
        (sortBucket key (UInt32.ofNat pass) passCount signedOrder).toNat) 256
        (current input count identityValues pass state)) := by
    have hstable := @StableBy.deal (Entry w) _
      (entryDigit fun key : BitVec w =>
        (sortBucket key (UInt32.ofNat pass) passCount signedOrder).toNat) _ _ h.sorted
      (256 ^ pass) 256 (fun entry _ => rankUpTo_lt _ _ _ _) (fun entry _ => hbucket entry.1)
    have hrank : (fun entry : Entry w => entryDigit (fun key : BitVec w =>
          (sortBucket key (UInt32.ofNat pass) passCount signedOrder).toNat) entry * 256 ^ pass +
          rankUpTo passCount.toNat signedOrder entry.1 pass) =
        fun entry => rankUpTo passCount.toNat signedOrder entry.1 (pass + 1) := by
      funext entry
      rw [entryDigit, sortBucket_toNat hwidth entry.1 signedOrder hpass, rankUpTo]
    rw [hrank] at hstable
    exact hstable
  rw [runPass]
  by_cases heven : pass % 2 = 0
  · simp only [if_pos heven]
    have hfits : state.temp.Fits (current input count identityValues pass state).length := by
      rw [hlength]
      exact h.temp_fits
    have hends := ends_sortPass (E := E) htable hbucket h.counts_length h.offsets_length hfits
    rw [hlength] at hends
    refine Ends.bind hends ?_
    rintro ⟨counts, offsets, written⟩ ⟨hcounts, hoffsets, hwritten⟩
    refine ends_pure ⟨hcounts, hoffsets, h.output_fits, hwritten.fits h.temp_fits, h.keys_length,
      h.values_length, h.keys_rest, h.values_rest, ?_⟩
    rw [current, if_neg (by omega), if_pos (by omega)]
    show StableBy _ _ (written.table count)
    rw [hwritten.table_eq]
    exact hdeal
  · simp only [if_neg heven]
    have hfits : state.output.Fits (current input count identityValues pass state).length := by
      rw [hlength]
      exact h.output_fits
    have hends := ends_sortPass (E := E) htable hbucket h.counts_length h.offsets_length hfits
    rw [hlength] at hends
    refine Ends.bind hends ?_
    rintro ⟨counts, offsets, written⟩ ⟨hcounts, hoffsets, hwritten⟩
    refine ends_pure ⟨hcounts, hoffsets, hwritten.fits h.output_fits, h.temp_fits,
      hwritten.keys_length.trans h.keys_length, hwritten.values_length.trans h.values_length,
      hwritten.keys_rest.trans h.keys_rest, hwritten.values_rest.trans h.values_rest, ?_⟩
    rw [current, if_neg (by omega), if_neg (by omega)]
    show StableBy _ _ (written.table count)
    rw [hwritten.table_eq]
    exact hdeal

end Runs

/-- Arrays for three entries, with something in them. -/
def usedState : SortState 32 where
  output := { keys := [9, 9, 9], values := [8, 8, 8] }
  temp := { keys := [7, 7, 7, 7], values := [6, 6, 6, 6] }
  counts := List.replicate 256 5
  offsets := List.replicate 256 4

end RunD.Radix
