/-
The orders of the packets that the weighted schedule is built from.

Ordering by one key is a stable sort, whichever of the counting and the radix
form it takes (`ends_orderByU32`, `ends_stableOrderByU64`).  A counting pass
deals the packets into one bucket for each key; the radix form deals them by one
byte of the key after the other, between two arrays, and may stop at the highest
byte in which the keys differ.  The three packet arrays keep their length, and
every packet stands in the order exactly once when the stage is done, which is
all that the stages after it need of them.
-/
import Mathlib.Data.LawfulXor.Basic
import Mathlib.Data.List.Nodup
import Mathlib.Data.Prod.Lex
import RunD.StableRadix
import RunD.WeightedSchedule

namespace RunD

variable {E : WeightedExit → Prop}

/-- All packets in their natural order. -/
def allPackets (n : Nat) : List UInt32 := (List.range n).map UInt32.ofNat

theorem length_allPackets (n : Nat) : (allPackets n).length = n := by
  rw [allPackets, List.length_map, List.length_range]

theorem mem_allPackets {n : Nat} (hn : n < 2 ^ 32) {packet : UInt32} :
    packet ∈ allPackets n ↔ packet.toNat < n := by
  rw [allPackets, List.mem_map]
  constructor
  · rintro ⟨i, hi, rfl⟩
    have hi : i < n := List.mem_range.mp hi
    rw [UInt32.toNat_ofNat']
    rwa [Nat.mod_eq_of_lt (by omega)]
  · intro h
    exact ⟨packet.toNat, List.mem_range.mpr h, UInt32.ofNat_toNat⟩

theorem nodup_allPackets {n : Nat} (hn : n < 2 ^ 32) : (allPackets n).Nodup := by
  rw [allPackets]
  refine List.Nodup.map_on (fun a ha b hb hab => ?_) List.nodup_range
  have ha := List.mem_range.mp ha
  have hb := List.mem_range.mp hb
  have hwords := congrArg UInt32.toNat hab
  rwa [UInt32.toNat_ofNat', UInt32.toNat_ofNat', Nat.mod_eq_of_lt (by omega),
    Nat.mod_eq_of_lt (by omega)] at hwords

/-- The order holds every packet once, and the other two arrays are as long. -/
structure PacketOrder.Full (n : Nat) (order : PacketOrder) : Prop where
  ordered : order.ordered.Perm (allPackets n)
  buckets : order.buckets.length = n
  scratch : order.scratch.length = n

theorem PacketOrder.Full.length {n : Nat} {order : PacketOrder} (h : order.Full n) :
    order.ordered.length = n :=
  h.ordered.length_eq.trans (length_allPackets n)

/-! ### Keys -/

/-- `keyAt` has a key for each of the first `n` packets. -/
def KeysOf (keyAt : KeyAt) (n : Nat) (key : UInt32 → Nat) : Prop :=
  ∀ packet : UInt32, packet.toNat < n → keyAt packet = Except.ok (key packet)

theorem KeysOf.at {keyAt : KeyAt} {n : Nat} {key : UInt32 → Nat} (h : KeysOf keyAt n key)
    (hn : n < 2 ^ 32) {ordered : List UInt32} (hall : ordered.Perm (allPackets n)) {packet : UInt32}
    (hmem : packet ∈ ordered) : keyAt packet = Except.ok (key packet) :=
  h packet ((mem_allPackets hn).mp (hall.mem_iff.mp hmem))

theorem keysOf_hintKey {request : ScheduleCompileRequest} {n : Nat}
    (h : request.packetHints.length = n) (key : PacketPlacementHint → Nat) :
    KeysOf (hintKey request key) n fun packet =>
      key (request.packetHints.getD packet.toNat {}) := by
  intro packet hlt
  have hget : request.packetHints[packet.toNat]? = some request.packetHints[packet.toNat] :=
    List.getElem?_eq_getElem (h ▸ hlt)
  show _ = Except.ok (key (request.packetHints.getD packet.toNat {}))
  rw [hintKey, fetch_of_lt hget, ok_bind, List.getD_eq_getElem?_getD, hget]
  rfl

theorem keysOf_workKey {resolved : List UInt64} {n : Nat} (h : resolved.length = n) :
    KeysOf (workKey resolved) n fun packet =>
      2 ^ 64 - 1 - (resolved.getD packet.toNat 0).toNat := by
  intro packet hlt
  have hget : resolved[packet.toNat]? = some resolved[packet.toNat] :=
    List.getElem?_eq_getElem (h ▸ hlt)
  show _ = Except.ok (2 ^ 64 - 1 - (resolved.getD packet.toNat 0).toNat)
  rw [workKey, fetch_of_lt hget, ok_bind, List.getD_eq_getElem?_getD, hget]
  rfl

section Passes

variable {keyAt : KeyAt} {n : Nat} {key : UInt32 → Nat}

/-- Measuring finds bounds of all keys, the greater of them a key itself. -/
theorem ends_measureKeyRange (hkeys : KeysOf keyAt n key) (hn : n < 2 ^ 32) (hpos : n ≠ 0)
    {ordered : List UInt32} (hall : ordered.Perm (allPackets n)) :
    Ends (measureKeyRange keyAt n ordered)
      (fun range => (∃ packet ∈ ordered, range.2 = key packet) ∧
        ∀ packet ∈ ordered, range.1 ≤ key packet ∧ key packet ≤ range.2) E := by
  have hlen : ordered.length = n := hall.length_eq.trans (length_allPackets n)
  have hkey : ∀ {i : Nat} {packet : UInt32}, ordered[i]? = some packet →
      keyAt packet = Except.ok (key packet) := fun hget =>
    hkeys.at hn hall (List.mem_of_getElem? hget)
  rw [measureKeyRange]
  refine Ends.bind (ends_fetch (by omega)) fun first hfirst => ?_
  rw [hkey hfirst, ok_bind]
  -- after `i` turns the range covers the keys up to place `i`
  refine Ends.mono_post (ends_forRange (fun i (range : Nat × Nat) =>
    (∃ packet ∈ ordered, range.2 = key packet) ∧
    ∀ q packet, q < i + 1 → ordered[q]? = some packet →
      range.1 ≤ key packet ∧ key packet ≤ range.2) ⟨?_, ?_⟩ ?_) ?_
  · exact ⟨first, List.mem_of_getElem? hfirst, rfl⟩
  · intro q packet hq hget
    obtain rfl : q = 0 := by omega
    rw [hfirst] at hget
    obtain rfl : first = packet := Option.some.inj hget
    exact ⟨Nat.le_refl _, Nat.le_refl _⟩
  · rintro i range hi ⟨⟨widest, hwidest, hgreatest⟩, hrange⟩
    refine Ends.bind (ends_fetch (by omega)) fun next hnext => ?_
    rw [hkey hnext, ok_bind]
    refine ends_pure ⟨?_, ?_⟩
    · show ∃ packet ∈ ordered, max range.2 (key next) = key packet
      rcases Nat.le_total range.2 (key next) with hle | hle
      · exact ⟨next, List.mem_of_getElem? hnext, Nat.max_eq_right hle⟩
      · exact ⟨widest, hwidest, (Nat.max_eq_left hle).trans hgreatest⟩
    · intro q packet hq hget
      rcases Nat.lt_or_ge q (i + 1) with hold | hnew
      · have hbounds := hrange q packet hold hget
        show min range.1 (key next) ≤ key packet ∧ key packet ≤ max range.2 (key next)
        omega
      · obtain rfl : q = i + 1 := by omega
        rw [hnext] at hget
        obtain rfl : next = packet := Option.some.inj hget
        exact ⟨Nat.min_le_right _ _, Nat.le_max_right _ _⟩
  · rintro range ⟨hgreatest, hrange⟩
    refine ⟨hgreatest, ?_⟩
    intro packet hmem
    obtain ⟨q, hq, rfl⟩ := List.mem_iff_getElem.mp hmem
    exact hrange q _ (by omega) (List.getElem?_eq_getElem hq)

/-- The packets of `next` are those of `start`, sorted stably by a key. -/
structure PacketOrder.OrderedBy (n : Nat) (key : UInt32 → Nat) (start next : PacketOrder) :
    Prop where
  full : next.Full n
  stable : StableBy key start.ordered next.ordered

/-- Counting in one array: clear it, count, turn the counts into offsets in place, write. -/
theorem ends_countingPass (hkeys : KeysOf keyAt n key) (hn : n < 2 ^ 32) {order : PacketOrder}
    (hfull : order.Full n) {minKey bucketCount : Nat} (hbuckets : bucketCount ≤ n)
    (hrange : ∀ packet ∈ order.ordered, minKey ≤ key packet ∧ key packet - minKey < bucketCount) :
    Ends (countingPass keyAt n minKey bucketCount order) (order.OrderedBy n key) E := by
  have hlen := hfull.length
  have hbucketAt : ∀ packet ∈ order.ordered,
      (do let key ← keyAt packet; pure (key - minKey) : Scheduling Nat) =
        Except.ok (key packet - minKey) ∧ key packet - minKey < bucketCount := by
    intro packet hmem
    rw [hkeys.at hn hfull.ordered hmem]
    exact ⟨rfl, (hrange packet hmem).2⟩
  rw [countingPass]
  have hclear : (List.replicate bucketCount (0 : UInt32) ++ order.buckets.drop bucketCount).length
      = n := by
    rw [List.length_append, List.length_replicate, List.length_drop, hfull.buckets]
    omega
  have htally := ends_tally (E := E) (m := bucketCount)
    (List.replicate bucketCount (0 : UInt32) ++ order.buckets.drop bucketCount)
    (by omega) (by omega) hbucketAt fun j hj => wordAt_replicate_zero _ hj
  rw [hlen] at htally
  refine Ends.bind htally fun counts hcounts => ?_
  rw [hclear] at hcounts
  have htotal : startOf (fun j => (inBucket (fun packet => key packet - minKey)
      order.ordered j).length) bucketCount < 2 ^ 32 := by
    rw [startOf_inBucket _ fun packet hmem => (hrange packet hmem).2]
    omega
  refine Ends.bind (ends_offsetsInPlace _ htotal (by omega) hcounts.2) ?_
  rintro ⟨total, offsets⟩ ⟨hoffsets, hstarts⟩
  rw [hcounts.1] at hoffsets
  have hscatter := ends_scatter (E := E) (m := bucketCount) offsets
    order.scratch (by rw [hoffsets]; omega) (by omega)
    (by rw [hfull.scratch, hlen]) hbucketAt hstarts
  rw [hlen] at hscatter
  refine Ends.bind hscatter ?_
  rintro ⟨offsets', written⟩ ⟨hwidth, hwritten⟩
  -- one bucket for each key, in the order of the keys
  have hdealt : StableBy (fun packet => (key packet - minKey) * 1 + 0) order.ordered written := by
    rw [show written = _ from hwritten]
    exact (StableBy.refl _).deal (fun _ _ => Nat.one_pos) fun packet hmem => (hrange packet hmem).2
  have hstable : StableBy key order.ordered written := by
    apply hdealt.congr_rank
    intro x hx y hy
    have hleftBound := (hrange x hx).1
    have hrightBound := (hrange y hy).1
    omega
  have hwrittenLen : written.length = n := hstable.perm.length_eq.trans hlen
  have hcopied : written.take n ++ order.ordered.drop n = written := by
    rw [List.take_of_length_le (by omega), List.drop_eq_nil_of_le (by omega), List.append_nil]
  refine ends_pure ⟨⟨?_, by rw [← hoffsets]; exact hwidth, hwrittenLen⟩, ?_⟩
  · show (written.take n ++ order.ordered.drop n).Perm (allPackets n)
    rw [hcopied]
    exact hstable.perm.trans hfull.ordered
  · show StableBy key order.ordered (written.take n ++ order.ordered.drop n)
    rwa [hcopied]

/-- A pass by one byte sorts by one byte more. -/
theorem ends_radixPass (hkeys : KeysOf keyAt n key) (hn : n < 2 ^ 32) (byte : Nat)
    {items source target : List UInt32} (hitems : items.Perm (allPackets n))
    (hstable : StableBy (fun packet => key packet % 256 ^ byte) items source)
    (htarget : target.length = n) :
    Ends (radixPass keyAt n byte source target)
      (StableBy (fun packet => key packet % 256 ^ (byte + 1)) items) E := by
  have hsource := hstable.perm.trans hitems
  have hlen : source.length = n := hsource.length_eq.trans (length_allPackets n)
  have hbucketAt : ∀ packet ∈ source,
      (do let key ← keyAt packet; pure (key >>> (byte * 8) % 256) : Scheduling Nat) =
        Except.ok (key packet >>> (byte * 8) % 256) ∧ key packet >>> (byte * 8) % 256 < 256 := by
    intro packet hmem
    rw [hkeys.at hn hsource hmem]
    exact ⟨rfl, Nat.mod_lt _ (by omega)⟩
  have hdeal := ends_deal (E := E) target (by omega) (by omega) hbucketAt
  rw [hlen] at hdeal
  refine Ends.mono_post hdeal ?_
  rintro written rfl
  -- the byte and what is below it are the next remainder
  have hsplit : (fun packet => key packet % 256 ^ (byte + 1)) = fun packet =>
      key packet >>> (byte * 8) % 256 * 256 ^ byte + key packet % 256 ^ byte := by
    funext packet
    rw [Nat.mod_pow_succ, Nat.shiftRight_eq_div_pow, Nat.mul_comm byte 8, Nat.pow_mul,
      Nat.mul_comm, Nat.add_comm]
  rw [hsplit]
  apply hstable.deal
  · intro packet _
    exact Nat.mod_lt _ (Nat.pow_pos (by omega))
  · intro packet _
    exact Nat.mod_lt _ (by omega)

/-- After an even number of passes the packets stand in the order, after an odd number in the
scratch, sorted by as many bytes of their keys. -/
def PacketOrder.Passed (n : Nat) (key : UInt32 → Nat) (items : List UInt32) (passes : Nat)
    (order : PacketOrder) : Prop :=
  let sorted := StableBy (fun packet => key packet % 256 ^ passes) items
  order.buckets.length = n ∧
    if passes % 2 = 0 then sorted order.ordered ∧ order.scratch.length = n
    else sorted order.scratch ∧ order.ordered.length = n

theorem ends_radixPasses (hkeys : KeysOf keyAt n key) (hn : n < 2 ^ 32) (passes : Nat)
    {order : PacketOrder} (hfull : order.Full n) :
    Ends (radixPasses keyAt n passes order) (PacketOrder.Passed n key order.ordered passes) E := by
  have hlength : ∀ {byte : Nat} {sorted : List UInt32},
      StableBy (fun packet => key packet % 256 ^ byte) order.ordered sorted →
      sorted.length = n := fun h => h.perm.length_eq.trans hfull.length
  refine ends_forRange (PacketOrder.Passed n key order.ordered) ⟨hfull.buckets, ?_⟩ ?_
  · rw [if_pos rfl]
    refine ⟨?_, hfull.scratch⟩
    simpa [Nat.mod_one] using StableBy.refl order.ordered
  · rintro byte now - ⟨hbuckets, hnow⟩
    show Ends (if byte % 2 = 0 then _ else _) _ E
    by_cases heven : byte % 2 = 0
    · rw [if_pos heven] at hnow ⊢
      refine Ends.bind (ends_radixPass hkeys hn byte hfull.ordered hnow.1 hnow.2) ?_
      intro target htarget
      refine ends_pure ⟨hbuckets, ?_⟩
      rw [if_neg (by omega)]
      exact ⟨htarget, hlength hnow.1⟩
    · rw [if_neg heven] at hnow ⊢
      refine Ends.bind (ends_radixPass hkeys hn byte hfull.ordered hnow.1 hnow.2) ?_
      intro target htarget
      refine ends_pure ⟨hbuckets, ?_⟩
      rw [if_pos (by omega)]
      exact ⟨htarget, hlength hnow.1⟩

/-! ### Stopping early -/

/-- The highest byte is one above which nothing is left of the difference. -/
theorem highestByteFrom_spec (fuel difference highest : Nat) (hfuel : difference < 256 ^ (fuel + 1)) :
    ∃ more, highestByteFrom fuel difference highest = highest + more ∧
      difference < 256 ^ (more + 1) := by
  induction fuel generalizing difference highest with
  | zero => exact ⟨0, rfl, hfuel⟩
  | succ fuel ih =>
      rw [highestByteFrom]
      by_cases hlarge : difference > 255
      · rw [if_pos hlarge]
        have hshift : difference >>> 8 = difference / 256 := Nat.shiftRight_eq_div_pow _ 8
        obtain ⟨more, hmore, hlt⟩ := ih (difference >>> 8) (highest + 1) (by
          rw [hshift]
          exact Nat.div_lt_of_lt_mul (by rwa [Nat.mul_comm, ← Nat.pow_succ]))
        refine ⟨more + 1, by rw [hmore]; omega, ?_⟩
        rw [hshift] at hlt
        calc difference < (difference / 256 + 1) * 256 := by omega
          _ ≤ 256 ^ (more + 1) * 256 := Nat.mul_le_mul_right _ hlt
          _ = 256 ^ (more + 1 + 1) := (Nat.pow_succ 256 (more + 1)).symm
      · rw [if_neg hlarge]
        exact ⟨0, rfl, by omega⟩

/-- Keys between two bounds agree above the highest byte in which the bounds differ. -/
theorem div_eq_of_highestDifferingByte {range : Nat × Nat} (hlow : range.1 < 2 ^ 64)
    (hhigh : range.2 < 2 ^ 64) {a b : Nat} (ha : range.1 ≤ a ∧ a ≤ range.2)
    (hb : range.1 ≤ b ∧ b ≤ range.2) :
    a / 256 ^ (highestDifferingByte range + 1) = b / 256 ^ (highestDifferingByte range + 1) := by
  obtain ⟨more, hmore, hlt⟩ := highestByteFrom_spec 8 (range.1 ^^^ range.2) 0
    (Nat.lt_trans (Nat.xor_lt_two_pow hlow hhigh) (by decide))
  rw [highestDifferingByte, hmore, Nat.zero_add]
  have hpow : 256 ^ (more + 1) = 2 ^ (8 * (more + 1)) := Nat.pow_mul 2 8 (more + 1) ▸ rfl
  -- the bounds have the same high bytes
  have hends : range.1 / 256 ^ (more + 1) = range.2 / 256 ^ (more + 1) := by
    have hxor : (range.1 ^^^ range.2) >>> (8 * (more + 1)) = 0 := by
      rw [Nat.shiftRight_eq_div_pow, ← hpow]
      exact Nat.div_eq_of_lt hlt
    rw [Nat.shiftRight_xor_distrib, xor_eq_zero_iff, Nat.shiftRight_eq_div_pow,
      Nat.shiftRight_eq_div_pow, ← hpow] at hxor
    exact hxor
  have hla := Nat.div_le_div_right (c := 256 ^ (more + 1)) ha.1
  have hau := Nat.div_le_div_right (c := 256 ^ (more + 1)) ha.2
  have hlb := Nat.div_le_div_right (c := 256 ^ (more + 1)) hb.1
  have hbu := Nat.div_le_div_right (c := 256 ^ (more + 1)) hb.2
  omega

/-- Numbers that agree in their high part are ordered as their low parts are. -/
theorem mod_le_mod_iff {a b base : Nat} (h : a / base = b / base) :
    a % base ≤ b % base ↔ a ≤ b := by
  have ha := Nat.div_add_mod a base
  have hb := Nat.div_add_mod b base
  rw [h] at ha
  omega

/-! ### Orders -/

theorem ends_orderByU32 (hkeys : KeysOf keyAt n key) (hn : n < 2 ^ 32) (hpos : n ≠ 0)
    (hsmall : ∀ packet, key packet < 2 ^ 32) {order : PacketOrder} (hfull : order.Full n) :
    Ends (orderByU32 keyAt n order) (order.OrderedBy n key) E := by
  have hradix : Ends (stableRadixOrderByU32 keyAt n order) (order.OrderedBy n key) E := by
    refine Ends.mono_post (ends_radixPasses hkeys hn 4 hfull) fun now hnow => ?_
    have hwhole : (fun packet => key packet % 256 ^ 4) = key := by
      funext packet
      exact Nat.mod_eq_of_lt (hsmall packet)
    have hstable := hnow.2.1
    rw [hwhole] at hstable
    exact ⟨⟨hstable.perm.trans hfull.ordered, hnow.1, hnow.2.2⟩, hstable⟩
  rw [orderByU32, stableCountingOrderByU32, if_neg hpos]
  refine Ends.bind (Q := fun counted : Option PacketOrder =>
    ∀ now, counted = some now → order.OrderedBy n key now) ?_ ?_
  · refine Ends.bind (ends_measureKeyRange hkeys hn hpos hfull.ordered) ?_
    rintro range ⟨-, hrange⟩
    show Ends (if range.2 - range.1 + 1 > order.buckets.length then _ else _) _ E
    by_cases hwide : range.2 - range.1 + 1 > order.buckets.length
    · rw [if_pos hwide]
      exact ends_pure fun now h => absurd h (by simp)
    · rw [if_neg hwide]
      have hwidth : range.2 - range.1 + 1 ≤ n := by rw [← hfull.buckets]; omega
      refine Ends.bind (ends_countingPass hkeys hn hfull hwidth fun packet hmem => ?_) ?_
      · have := hrange packet hmem
        omega
      · intro now hnow
        exact ends_pure fun later h => Option.some.inj h ▸ hnow
  · rintro (- | now) hcounted
    · exact hradix
    · exact ends_pure (hcounted now rfl)

theorem ends_stableRadixOrderByU64 (hkeys : KeysOf keyAt n key) (hn : n < 2 ^ 32)
    {order : PacketOrder} (hfull : order.Full n) {range : Nat × Nat} (hlow : range.1 < 2 ^ 64)
    (hhigh : range.2 < 2 ^ 64)
    (hrange : ∀ packet ∈ order.ordered, range.1 ≤ key packet ∧ key packet ≤ range.2) :
    Ends (stableRadixOrderByU64 keyAt n range order) (order.OrderedBy n key) E := by
  -- the bytes above the last pass are those of every key
  have hwhole : ∀ sorted : List UInt32,
      StableBy (fun packet => key packet % 256 ^ (highestDifferingByte range + 1))
        order.ordered sorted → StableBy key order.ordered sorted := by
    intro sorted hstable
    apply hstable.congr_rank
    intro x hx y hy
    exact mod_le_mod_iff
      (div_eq_of_highestDifferingByte hlow hhigh (hrange x hx) (hrange y hy))
  rw [stableRadixOrderByU64]
  refine Ends.bind (ends_radixPasses hkeys hn _ hfull) ?_
  rintro now ⟨hbuckets, hnow⟩
  by_cases heven : highestDifferingByte range % 2 = 0
  · -- an odd number of passes ends in the scratch, which is copied back
    rw [if_neg (by omega)] at hnow
    rw [if_pos heven]
    have hstable := hwhole now.scratch hnow.1
    have hlen : now.scratch.length = n := hstable.perm.length_eq.trans hfull.length
    have hcopied : now.scratch.take n ++ now.ordered.drop n = now.scratch := by
      rw [List.take_of_length_le (by omega), List.drop_eq_nil_of_le (by omega), List.append_nil]
    refine ends_pure ⟨⟨?_, hbuckets, hlen⟩, ?_⟩
    · show (now.scratch.take n ++ now.ordered.drop n).Perm (allPackets n)
      rw [hcopied]
      exact hstable.perm.trans hfull.ordered
    · show StableBy key order.ordered (now.scratch.take n ++ now.ordered.drop n)
      rwa [hcopied]
  · rw [if_pos (by omega)] at hnow
    rw [if_neg heven]
    have hstable := hwhole now.ordered hnow.1
    exact ends_pure ⟨⟨hstable.perm.trans hfull.ordered, hbuckets, hnow.2⟩, hstable⟩

theorem ends_stableOrderByU64 (hkeys : KeysOf keyAt n key) (hn : n < 2 ^ 32) (hpos : n ≠ 0)
    (hsmall : ∀ packet, key packet < 2 ^ 64) {order : PacketOrder} (hfull : order.Full n) :
    Ends (stableOrderByU64 keyAt n order) (order.OrderedBy n key) E := by
  rw [stableOrderByU64, if_neg hpos]
  refine Ends.bind (ends_measureKeyRange hkeys hn hpos hfull.ordered) ?_
  rintro range ⟨⟨widest, hwidest, hgreatest⟩, hrange⟩
  have hhigh : range.2 < 2 ^ 64 := hgreatest ▸ hsmall widest
  have hlow : range.1 < 2 ^ 64 :=
    Nat.lt_of_le_of_lt (hrange widest hwidest).1 (hsmall widest)
  refine Ends.bind (Q := fun counted : Option PacketOrder =>
    ∀ now, counted = some now → order.OrderedBy n key now) ?_ ?_
  · rw [stableCountingOrderByMeasuredU64]
    show Ends (if range.2 - range.1 ≥ order.buckets.length then _ else _) _ E
    by_cases hwide : range.2 - range.1 ≥ order.buckets.length
    · rw [if_pos hwide]
      exact ends_pure fun now h => absurd h (by simp)
    · rw [if_neg hwide]
      have hwidth : range.2 - range.1 + 1 ≤ n := by rw [← hfull.buckets]; omega
      refine Ends.bind (ends_countingPass hkeys hn hfull hwidth fun packet hmem => ?_) ?_
      · have := hrange packet hmem
        omega
      · intro now hnow
        exact ends_pure fun later h => Option.some.inj h ▸ hnow
  · rintro (- | now) hcounted
    · exact ends_stableRadixOrderByU64 hkeys hn hfull hlow hhigh hrange
    · exact ends_pure (hcounted now rfl)

end Passes

/-! ### The whole stage -/

/-- What the ordering stage sorts by: the locality bucket, then the heavier packet first, then the
group of cache lines, then the wider span first, then the number of the packet. -/
def packetRank (request : ScheduleCompileRequest) (resolved : List UInt64) (packet : UInt32) :
    ℕ ×ₗ ℕᵒᵈ ×ₗ ℕ ×ₗ ℕᵒᵈ ×ₗ ℕ :=
  let hint := request.packetHints.getD packet.toNat {}
  toLex (hint.localityBucketId.toNat,
    toLex (OrderDual.toDual (resolved.getD packet.toNat 0).toNat,
      toLex (hint.cacheLineGroup.toNat,
        toLex (OrderDual.toDual hint.preferredContiguousSpan.toNat, packet.toNat))))

theorem packetRank_lt {request : ScheduleCompileRequest} {resolved : List UInt64} {a b : UInt32} :
    packetRank request resolved a < packetRank request resolved b ↔
      let hint := fun packet : UInt32 => request.packetHints.getD packet.toNat {}
      let work := fun packet : UInt32 => (resolved.getD packet.toNat 0).toNat
      (hint a).localityBucketId.toNat < (hint b).localityBucketId.toNat ∨
      (hint a).localityBucketId.toNat = (hint b).localityBucketId.toNat ∧ (work b < work a ∨
      work a = work b ∧ ((hint a).cacheLineGroup.toNat < (hint b).cacheLineGroup.toNat ∨
      (hint a).cacheLineGroup.toNat = (hint b).cacheLineGroup.toNat ∧
      ((hint b).preferredContiguousSpan.toNat < (hint a).preferredContiguousSpan.toNat ∨
      (hint a).preferredContiguousSpan.toNat = (hint b).preferredContiguousSpan.toNat ∧
        a.toNat < b.toNat))) := by
  simp only [packetRank, Prod.Lex.toLex_lt_toLex, OrderDual.toDual_lt_toDual,
    OrderDual.toDual_inj]

/-- The order holds every packet once and is sorted by `packetRank`. -/
structure PacketOrder.Ranked (request : ScheduleCompileRequest) (resolved : List UInt64)
    (order : PacketOrder) : Prop where
  full : order.Full request.packetCount.toNat
  ranked : order.ordered.Pairwise fun a b =>
    packetRank request resolved a < packetRank request resolved b

theorem allPackets_increasing {n : Nat} (hn : n < 2 ^ 32) :
    (allPackets n).Pairwise fun a b => a.toNat < b.toNat := by
  rw [allPackets, List.pairwise_map]
  refine List.pairwise_lt_range.imp_of_mem ?_
  intro a b ha hb hab
  have ha := List.mem_range.mp ha
  have hb := List.mem_range.mp hb
  rwa [UInt32.toNat_ofNat', UInt32.toNat_ofNat', Nat.mod_eq_of_lt (by omega),
    Nat.mod_eq_of_lt (by omega)]

/-- **The ordering stage sorts the packets**, and never leaves an array. -/
theorem ends_buildWeightedPacketOrder {request : ScheduleCompileRequest} {resolved : List UInt64}
    {order : PacketOrder}
    (hresolved : resolved.length = request.packetCount.toNat)
    (hhints : packetHintsValid request = true)
    (hordered : order.ordered.length = request.packetCount.toNat)
    (hbuckets : order.buckets.length = request.packetCount.toNat)
    (hscratch : order.scratch.length = request.packetCount.toNat) :
    Ends (buildWeightedPacketOrder request resolved order)
      (PacketOrder.Ranked request resolved) E := by
  have hn : request.packetCount.toNat < 2 ^ 32 := UInt32.toNat_lt _
  have hhinted : hasPacketHints request = true →
      request.packetHints.length = request.packetCount.toNat := by
    intro h
    rw [packetHintsValid, Bool.or_eq_true] at hhints
    rcases hhints with hempty | hexact
    · rw [hasPacketHints, hempty] at h
      exact absurd h (by simp)
    · exact beq_iff_eq.mp hexact
  have hiota : (List.range order.ordered.length).map UInt32.ofNat =
      allPackets request.packetCount.toNat := by
    rw [hordered]
    rfl
  have hstart : PacketOrder.Full request.packetCount.toNat
      { order with ordered := allPackets request.packetCount.toNat } :=
    ⟨List.Perm.refl _, hbuckets, hscratch⟩
  have hincreasing := allPackets_increasing hn
  rw [buildWeightedPacketOrder, hiota]
  by_cases hpos : request.packetCount.toNat = 0
  · simp only [if_pos hpos]
    refine ends_pure ⟨hstart, ?_⟩
    show (allPackets _).Pairwise _
    rw [hpos]
    exact List.Pairwise.nil
  simp only [if_neg hpos]
  have hwork : ∀ now : PacketOrder, now.Full request.packetCount.toNat →
      Ends (stableOrderByU64 (workKey resolved) request.packetCount.toNat now)
        (now.OrderedBy request.packetCount.toNat fun packet =>
          2 ^ 64 - 1 - (resolved.getD packet.toNat 0).toNat) E := fun now hnow =>
    ends_stableOrderByU64 (keysOf_workKey hresolved) hn hpos (fun packet => by omega) hnow
  have hhint : ∀ (key : PacketPlacementHint → Nat) (now : PacketOrder),
      (∀ hint, key hint < 2 ^ 32) → hasPacketHints request = true →
      now.Full request.packetCount.toNat →
      Ends (orderByU32 (hintKey request key) request.packetCount.toNat now)
        (now.OrderedBy request.packetCount.toNat fun packet =>
          key (request.packetHints.getD packet.toNat {})) E := fun key now hsmall h hnow =>
    ends_orderByU32 (keysOf_hintKey (hhinted h) key) hn hpos (fun packet => hsmall _) hnow
  by_cases hinted : hasPacketHints request = true
  · simp only [if_pos hinted]
    refine Ends.bind (hhint _ _ (fun hint => by omega) hinted hstart) ?_
    intro spanned hspanned
    refine Ends.bind (hhint _ spanned (fun hint => UInt32.toNat_lt _) hinted hspanned.full) ?_
    intro cached hcached
    refine Ends.bind (hwork cached hcached.full) ?_
    intro worked hworked
    refine Ends.mono_post (hhint _ worked (fun hint => UInt32.toNat_lt _) hinted hworked.full) ?_
    intro final hfinal
    refine ⟨hfinal.full, ?_⟩
    -- each stage sorts by its key and keeps what the stages before it sorted by
    refine (hfinal.stable.pairwise (hworked.stable.pairwise
      (hcached.stable.pairwise (hspanned.stable.pairwise hincreasing)))).imp ?_
    intro a b hab
    rw [packetRank_lt]
    have hspanA := UInt32.toNat_lt
      (request.packetHints.getD a.toNat {}).preferredContiguousSpan
    have hspanB := UInt32.toNat_lt
      (request.packetHints.getD b.toNat {}).preferredContiguousSpan
    have hworkA := UInt64.toNat_lt (resolved.getD a.toNat 0)
    have hworkB := UInt64.toNat_lt (resolved.getD b.toNat 0)
    dsimp only
    omega
  · simp only [if_neg hinted]
    refine Ends.bind (ends_pure (Q := fun now => now =
      { order with ordered := allPackets request.packetCount.toNat }) rfl) ?_
    rintro now rfl
    refine Ends.bind (hwork _ hstart) fun worked hworked => ?_
    refine ends_pure ⟨hworked.full, ?_⟩
    refine (hworked.stable.pairwise hincreasing).imp ?_
    intro a b hab
    -- without hints the packets differ in their work and their number only
    have hempty : request.packetHints = [] := by simpa [hasPacketHints] using hinted
    rw [packetRank_lt]
    have hworkA := UInt64.toNat_lt (resolved.getD a.toNat 0)
    have hworkB := UInt64.toNat_lt (resolved.getD b.toNat 0)
    dsimp only at hab ⊢
    simp only [hempty, List.getD_nil, true_and]
    omega

/-- **The ordering stage returns the one order of all packets that is sorted** by locality bucket,
work, cache line group, span and number, whichever passes it takes. -/
theorem buildWeightedPacketOrder_sorted (request : ScheduleCompileRequest)
    (resolved : List UInt64) (order : PacketOrder)
    (hresolved : resolved.length = request.packetCount.toNat)
    (hhints : packetHintsValid request = true)
    (hordered : order.ordered.length = request.packetCount.toNat)
    (hbuckets : order.buckets.length = request.packetCount.toNat)
    (hscratch : order.scratch.length = request.packetCount.toNat) :
    ∃ final, buildWeightedPacketOrder request resolved order = Except.ok final ∧
      ∀ packets : List UInt32,
        packets.Perm (allPackets request.packetCount.toNat) ∧
          (packets.Pairwise fun a b =>
            packetRank request resolved a < packetRank request resolved b) ↔
        packets = final.ordered := by
  have hends := ends_buildWeightedPacketOrder (E := fun _ => False) hresolved hhints hordered
    hbuckets hscratch
  obtain ⟨final, hrun, hranked⟩ := hends.returns
  refine ⟨final, hrun, fun packets => ⟨?_, ?_⟩⟩
  · rintro ⟨hall, hsorted⟩
    -- two sorted lists of the same packets are the same list
    refine List.Perm.eq_of_pairwise ?_ hsorted hranked.ranked
      (hall.trans hranked.full.ordered.symm)
    intro a b _ _ hab hba
    exact absurd (lt_trans hab hba) (lt_irrefl _)
  · rintro rfl
    exact ⟨hranked.full.ordered, hranked.ranked⟩

/-- Three packets, of which two tie in everything but their cache lines. -/
theorem buildWeightedPacketOrder_sorted_three :
    ∃ final, buildWeightedPacketOrder
        { packetCount := 3, packetHints := [{ cacheLineGroup := 7 }, { localityBucketId := 1 }, {}] }
        [5, 9, 5] { ordered := [0, 0, 0], buckets := [0, 0, 0], scratch := [0, 0, 0] } =
          Except.ok final ∧ final.ordered = [2, 0, 1] := by
  obtain ⟨final, hrun, hsorted⟩ := buildWeightedPacketOrder_sorted
    { packetCount := 3, packetHints := [{ cacheLineGroup := 7 }, { localityBucketId := 1 }, {}] }
    [5, 9, 5] { ordered := [0, 0, 0], buckets := [0, 0, 0], scratch := [0, 0, 0] }
    rfl (by decide) rfl rfl rfl
  refine ⟨final, hrun, ((hsorted [2, 0, 1]).mp ⟨by decide, ?_⟩).symm⟩
  simp only [packetRank_lt]
  decide

end RunD
