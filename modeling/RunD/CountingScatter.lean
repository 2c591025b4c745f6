/-
The stable counting scatter: items are dealt into buckets by counting each
bucket, turning the counts into running offsets, and writing every item to the
next free place of its bucket.

The three loops are stated apart, because programs keep the counts and the
offsets in different places (in one array, in two, or twice over).  Their joint
effect does not depend on that: the target ends as the buckets one after the
other, each with its items in their old order (`byBucket`), and so as a
rearrangement of the items.
-/
import RunD.Checked
import Mathlib.Data.List.SplitLengths
import Mathlib.Algebra.BigOperators.Group.List.Basic
import Mathlib.Algebra.Order.Ring.Nat

namespace RunD

variable {ε α σ : Type}

/-! ### The three loops -/

/-- `++counts[bucket]` for each of the first `n` items. -/
def tally (bucketAt : α → Checked ε Nat) (n : Nat) (items : List α) (counts : List UInt32) :
    Checked ε (List UInt32) :=
  forIndex n items (fun item counts => do
    let bucket ← bucketAt item
    let count ← fetch counts bucket
    assign counts bucket (count + 1)) counts

/-- Running offsets of `n` buckets: `place` stores where a bucket starts, `count` says how many
items it has. -/
def runningOffsets (n : Nat) (count : Nat → σ → Checked ε UInt32)
    (place : Nat → UInt32 → σ → Checked ε σ) (s : σ) : Checked ε (UInt32 × σ) :=
  forRange n (fun bucket (state : UInt32 × σ) => do
    let items ← count bucket state.2
    let s ← place bucket state.1 state.2
    pure (state.1 + items, s)) (0, s)

/-- `target[offsets[bucket]++] = item` for each of the first `n` items. -/
def scatter (bucketAt : α → Checked ε Nat) (n : Nat) (items : List α) (offsets : List UInt32)
    (target : List α) : Checked ε (List UInt32 × List α) :=
  forIndex n items (fun item (state : List UInt32 × List α) => do
    let bucket ← bucketAt item
    let offset ← fetch state.1 bucket
    let offsets ← assign state.1 bucket (offset + 1)
    let target ← assign state.2 offset.toNat item
    pure (offsets, target)) (offsets, target)

/-- Deal the first `n` items into `m` buckets, with counters and offsets of its own. -/
def deal (bucketAt : α → Checked ε Nat) (m n : Nat) (items target : List α) :
    Checked ε (List α) := do
  let counts ← tally bucketAt n items (List.replicate m 0)
  let offsets ← runningOffsets m (fun bucket _ => fetch counts bucket)
    (fun bucket offset offsets => assign offsets bucket offset) (List.replicate m 0)
  let written ← scatter bucketAt n items offsets.2 target
  pure written.2

/-! ### Words of an array -/

/-- The number stored at a place of an array of words. -/
def wordAt (xs : List UInt32) (i : Nat) : Nat := (xs.getD i 0).toNat

theorem wordAt_of_getElem? {xs : List UInt32} {i : Nat} {x : UInt32} (h : xs[i]? = some x) :
    wordAt xs i = x.toNat := by
  rw [wordAt, List.getD_eq_getElem?_getD, h, Option.getD_some]

theorem wordAt_set (xs : List UInt32) {i : Nat} (hi : i < xs.length) (x : UInt32) (j : Nat) :
    wordAt (xs.set i x) j = if j = i then x.toNat else wordAt xs j := by
  by_cases hj : j = i
  · subst hj
    rw [if_pos rfl, wordAt, List.getD_eq_getElem?_getD, List.getElem?_set_self hi,
      Option.getD_some]
  · rw [if_neg hj, wordAt, wordAt, List.getD_eq_getElem?_getD, List.getD_eq_getElem?_getD,
      List.getElem?_set_ne (Ne.symm hj)]

/-- Adding one to a counter that stays below a bound of the machine word. -/
theorem toNat_add_one {x : UInt32} (h : x.toNat + 1 < 2 ^ 32) : (x + 1).toNat = x.toNat + 1 := by
  rw [UInt32.toNat_add]
  exact Nat.mod_eq_of_lt h

theorem toNat_add_of_lt {x y : UInt32} (h : x.toNat + y.toNat < 2 ^ 32) :
    (x + y).toNat = x.toNat + y.toNat := by
  rw [UInt32.toNat_add]
  exact Nat.mod_eq_of_lt h

/-! ### Buckets -/

variable (bucket : α → Nat)

/-- The items of one bucket, in order. -/
def inBucket (items : List α) (j : Nat) : List α := items.filter fun x => bucket x = j

/-- The items of buckets `0, …, m - 1`, bucket by bucket. -/
def byBucket (m : Nat) (items : List α) : List α :=
  ((List.range m).map (inBucket bucket items)).flatten

/-- Where a bucket starts when the buckets before it have `sizes` items. -/
def startOf (sizes : Nat → Nat) (j : Nat) : Nat := ((List.range j).map sizes).sum

theorem startOf_succ (sizes : Nat → Nat) (j : Nat) :
    startOf sizes (j + 1) = startOf sizes j + sizes j := by
  rw [startOf, startOf, List.range_succ, List.map_append, List.sum_append]
  simp

theorem startOf_mono (sizes : Nat → Nat) {i j : Nat} (h : i ≤ j) :
    startOf sizes i ≤ startOf sizes j := by
  induction j with
  | zero =>
      obtain rfl : i = 0 := by omega
      exact Nat.le_refl _
  | succ j ih =>
      rcases Nat.lt_or_ge i (j + 1) with hlt | hge
      · rw [startOf_succ]
        exact Nat.le_trans (ih (by omega)) (Nat.le_add_right _ _)
      · obtain rfl : i = j + 1 := by omega
        exact Nat.le_refl _

theorem startOf_congr {sizes sizes' : Nat → Nat} {j : Nat} (h : ∀ i, i < j → sizes i = sizes' i) :
    startOf sizes j = startOf sizes' j := by
  rw [startOf, startOf]
  congr 1
  refine List.map_congr_left fun i hi => h i (List.mem_range.mp hi)

theorem inBucket_concat (items : List α) (x : α) (j : Nat) :
    inBucket bucket (items ++ [x]) j =
      if bucket x = j then inBucket bucket items j ++ [x] else inBucket bucket items j := by
  rw [inBucket, List.filter_append]
  by_cases h : bucket x = j
  · simp [h, inBucket]
  · simp [h, inBucket]

/-- The items of the first `m` buckets are, up to order, the items with a bucket below `m`. -/
theorem byBucket_perm_filter (m : Nat) (items : List α) :
    (byBucket bucket m items).Perm (items.filter fun x => bucket x < m) := by
  induction m with
  | zero => simp [byBucket]
  | succ m ih =>
      have hsplit : byBucket bucket (m + 1) items =
          byBucket bucket m items ++ inBucket bucket items m := by
        rw [byBucket, List.range_succ, List.map_append, List.flatten_append]
        simp [byBucket]
      have hlow : (items.filter fun x => bucket x < m + 1).filter (fun x => bucket x < m) =
          items.filter fun x => bucket x < m := by
        rw [List.filter_filter]
        refine List.filter_congr fun x _ => ?_
        by_cases h : bucket x < m
        · simp [h, Nat.lt_succ_of_lt h]
        · simp [h]
      have htop : (items.filter fun x => bucket x < m + 1).filter (fun x => !decide (bucket x < m))
          = inBucket bucket items m := by
        rw [List.filter_filter, inBucket]
        refine List.filter_congr fun x _ => ?_
        by_cases h : bucket x = m
        · simp [h]
        · by_cases hlt : bucket x < m
          · simp [h, hlt]
          · simp [h, hlt, show ¬ bucket x < m + 1 by omega]
      have hperm := List.filter_append_perm (fun x => decide (bucket x < m))
        (items.filter fun x => bucket x < m + 1)
      rw [hlow, htop] at hperm
      rw [hsplit]
      exact (ih.append_right _).trans hperm

/-- **Dealing items into buckets rearranges them.** -/
theorem byBucket_perm {m : Nat} {items : List α} (h : ∀ x ∈ items, bucket x < m) :
    (byBucket bucket m items).Perm items := by
  have hperm := byBucket_perm_filter bucket m items
  rwa [List.filter_eq_self.mpr fun x hx => by simpa using h x hx] at hperm

/-- The sizes of the first `m` buckets add up to the number of items. -/
theorem startOf_inBucket {m : Nat} {items : List α} (h : ∀ x ∈ items, bucket x < m) :
    startOf (fun j => (inBucket bucket items j).length) m = items.length := by
  rw [← (byBucket_perm bucket h).length_eq, byBucket, List.length_flatten, List.map_map]
  rfl

/-- The slice of the dealt items that starts where a bucket starts is that bucket. -/
theorem slice_byBucket {m j : Nat} (items : List α) (hj : j < m) :
    ((byBucket bucket m items).drop (startOf (fun j => (inBucket bucket items j).length) j)).take
      (inBucket bucket items j).length = inBucket bucket items j := by
  have hsplit : List.range m = List.range j ++ j :: (List.range' (j + 1) (m - j - 1)) := by
    rw [List.range_eq_range', List.range_eq_range',
      show m = j + (1 + (m - j - 1)) by omega, ← List.range'_append_1, Nat.zero_add,
      ← List.range'_append_1]
    simp [show 1 + (m - j - 1) - 1 = m - j - 1 by omega]
  have hlen : (((List.range j).map (inBucket bucket items)).flatten).length =
      startOf (fun j => (inBucket bucket items j).length) j := by
    rw [List.length_flatten, List.map_map]
    rfl
  rw [byBucket, hsplit, List.map_append, List.map_cons, List.flatten_append, List.flatten_cons,
    ← hlen, List.drop_left, List.take_left]

/-! ### What the loops do -/

variable {bucket} {bucketAt : α → Checked ε Nat} {items : List α} {m : Nat} {E : ε → Prop}

/-- Counting leaves in each bucket's counter the number of its items. -/
theorem ends_tally (counts : List UInt32) (hm : m ≤ counts.length) (hn : items.length < 2 ^ 32)
    (hbucket : ∀ x ∈ items, bucketAt x = Except.ok (bucket x) ∧ bucket x < m)
    (hzero : ∀ j, j < m → wordAt counts j = 0) :
    Ends (tally bucketAt items.length items counts)
      (fun counts' => counts'.length = counts.length ∧
        ∀ j, j < m → wordAt counts' j = (inBucket bucket items j).length) E := by
  rw [tally, forIndex_eq_forEach _ _ _ _ (Nat.le_refl _), List.take_length]
  refine ends_forEach (fun seen (now : List UInt32) => now.length = counts.length ∧
    ∀ j, j < m → wordAt now j = (inBucket bucket seen j).length) [] ⟨rfl, ?_⟩ ?_
  · intro j hj
    rw [hzero j hj]
    rfl
  · rintro seen x rest now hsplit ⟨hlen, hcount⟩
    rw [List.nil_append] at hsplit
    have hx : x ∈ items := by rw [hsplit]; simp
    obtain ⟨hat, hlt⟩ := hbucket x hx
    rw [hat, ok_bind]
    refine Ends.bind (ends_fetch (by omega)) fun count hget => ?_
    rw [assign_of_lt (by omega)]
    refine ⟨by rw [List.length_set, hlen], fun j hj => ?_⟩
    have hword : count.toNat = (inBucket bucket seen (bucket x)).length := by
      rw [← wordAt_of_getElem? hget, hcount _ hlt]
    have hbound : count.toNat + 1 < 2 ^ 32 := by
      have hshort : (inBucket bucket seen (bucket x)).length ≤ seen.length :=
        List.length_filter_le _ _
      have htotal : seen.length + 1 ≤ items.length := by
        rw [hsplit, List.length_append, List.length_cons]
        omega
      omega
    rw [wordAt_set _ (by omega), inBucket_concat]
    by_cases hjx : j = bucket x
    · rw [if_pos hjx, if_pos hjx.symm, toNat_add_one hbound, hword, List.length_append, ← hjx]
      rfl
    · rw [if_neg hjx, if_neg (Ne.symm hjx), hcount j hj]

/-- Running offsets put each bucket where the buckets before it end. -/
theorem ends_runningOffsets {n : Nat} {count : Nat → σ → Checked ε UInt32}
    {place : Nat → UInt32 → σ → Checked ε σ} {s : σ} (sizes : Nat → Nat) (P : Nat → σ → Prop)
    (hsizes : startOf sizes n < 2 ^ 32) (h0 : P 0 s)
    (hcount : ∀ b t, b < n → P b t → Ends (count b t) (fun k => k.toNat = sizes b) E)
    (hplace : ∀ b offset t, b < n → P b t → offset.toNat = startOf sizes b →
      Ends (place b offset t) (P (b + 1)) E) :
    Ends (runningOffsets n count place s)
      (fun r => r.1.toNat = startOf sizes n ∧ P n r.2) E := by
  refine ends_forRange (fun b (r : UInt32 × σ) => r.1.toNat = startOf sizes b ∧ P b r.2)
    ⟨rfl, h0⟩ ?_
  rintro b ⟨offset, t⟩ hb ⟨hoffset, hP⟩
  refine Ends.bind (hcount b t hb hP) fun k hk => ?_
  refine Ends.bind (hplace b offset t hb hP hoffset) fun t' hP' => ?_
  refine ends_pure ⟨?_, hP'⟩
  have hle : startOf sizes (b + 1) ≤ startOf sizes n := startOf_mono sizes hb
  have hsum : offset.toNat + k.toNat = startOf sizes (b + 1) := by
    rw [startOf_succ, hk]
    exact congrArg (· + sizes b) hoffset
  show (offset + k).toNat = startOf sizes (b + 1)
  rw [toNat_add_of_lt (by omega), hsum]

/-- Offsets that replace the counts in their array. -/
theorem ends_offsetsInPlace {counts : List UInt32} (sizes : Nat → Nat)
    (hsizes : startOf sizes m < 2 ^ 32) (hm : m ≤ counts.length)
    (hcounts : ∀ j, j < m → wordAt counts j = sizes j) :
    Ends (runningOffsets m (fun bucket buckets => fetch buckets bucket)
        (fun bucket offset buckets => assign buckets bucket offset) counts)
      (fun r => r.2.length = counts.length ∧ ∀ j, j < m → wordAt r.2 j = startOf sizes j) E := by
  -- the places before `b` hold offsets already, those from `b` on still counts
  refine Ends.mono_post (ends_runningOffsets sizes (fun b now => now.length = counts.length ∧
    (∀ j, j < b → wordAt now j = startOf sizes j) ∧
    ∀ j, b ≤ j → j < m → wordAt now j = sizes j) hsizes
    ⟨rfl, fun j hj => absurd hj (Nat.not_lt_zero j), fun j _ hj => hcounts j hj⟩ ?_ ?_) ?_
  · rintro b now hb ⟨hnow, -, hrest⟩
    refine Ends.mono_post (ends_fetch (by omega)) fun count hget => ?_
    rw [← wordAt_of_getElem? hget]
    exact hrest b (Nat.le_refl _) hb
  · rintro b offset now hb ⟨hnow, hdone, hrest⟩ hoffset
    rw [assign_of_lt (by omega)]
    refine ⟨by rw [List.length_set, hnow], fun j hj => ?_, fun j hle hj => ?_⟩
    · rw [wordAt_set _ (by omega)]
      by_cases hjb : j = b
      · rw [if_pos hjb, hoffset, hjb]
      · rw [if_neg hjb]
        exact hdone j (by omega)
    · rw [wordAt_set _ (by omega), if_neg (by omega)]
      exact hrest j (by omega) hj
  · rintro ⟨total, offsets⟩ ⟨-, hlen, hdone, -⟩
    exact ⟨hlen, hdone⟩

/-- Offsets in an array of their own. -/
theorem ends_offsetsApart {counts offsets : List UInt32} (sizes : Nat → Nat)
    (hsizes : startOf sizes m < 2 ^ 32) (hm : m ≤ counts.length) (ho : m ≤ offsets.length)
    (hcounts : ∀ j, j < m → wordAt counts j = sizes j) :
    Ends (runningOffsets m (fun bucket _ => fetch counts bucket)
        (fun bucket offset offsets => assign offsets bucket offset) offsets)
      (fun r => r.2.length = offsets.length ∧ ∀ j, j < m → wordAt r.2 j = startOf sizes j) E := by
  refine Ends.mono_post (ends_runningOffsets sizes (fun b now => now.length = offsets.length ∧
    ∀ j, j < b → wordAt now j = startOf sizes j) hsizes
    ⟨rfl, fun j hj => absurd hj (Nat.not_lt_zero j)⟩ ?_ ?_) ?_
  · intro b now hb _
    refine Ends.mono_post (ends_fetch (by omega)) fun count hget => ?_
    rw [← wordAt_of_getElem? hget]
    exact hcounts b hb
  · rintro b offset now hb ⟨hnow, hdone⟩ hoffset
    rw [assign_of_lt (by omega)]
    refine ⟨by rw [List.length_set, hnow], fun j hj => ?_⟩
    rw [wordAt_set _ (by omega)]
    by_cases hjb : j = b
    · rw [if_pos hjb, hoffset, hjb]
    · rw [if_neg hjb]
      exact hdone j (by omega)
  · rintro ⟨total, offsets⟩ ⟨-, hlen, hdone⟩
    exact ⟨hlen, hdone⟩

/-- Writing inside one segment of a list cut into segments. -/
theorem flatten_set {segments : List (List α)} {j k : Nat} {segment : List α} {a : α}
    (hj : segments[j]? = some segment) (hk : k < segment.length) :
    segments.flatten.set (startOf (fun i => (segments.getD i []).length) j + k) a =
      (segments.set j (segment.set k a)).flatten := by
  induction segments generalizing j with
  | nil => simp at hj
  | cons first segments ih =>
      cases j with
      | zero =>
          obtain rfl : first = segment := by simpa using hj
          show (first ++ segments.flatten).set (0 + k) a = _
          rw [Nat.zero_add, List.set_append_left _ _ hk]
          rfl
      | succ j =>
          have hstart : startOf (fun i => ((first :: segments).getD i []).length) (j + 1) =
              first.length + startOf (fun i => (segments.getD i []).length) j := by
            rw [startOf, List.range_succ_eq_map, List.map_cons, List.sum_cons, List.map_map]
            rfl
          rw [hstart, List.flatten_cons, Nat.add_assoc, List.set_append_right _ _ (by omega),
            Nat.add_sub_cancel_left, ih (by simpa using hj)]
          rfl

/-- The state of the writing loop: the target is cut into one segment per bucket, each filled up
to where its offset points. -/
structure Dealt (bucket : α → Nat) (m width : Nat) (items seen : List α)
    (state : List UInt32 × List α) : Prop where
  buckets_le : m ≤ width
  offsets_length : state.1.length = width
  offset : ∀ j, j < m → wordAt state.1 j =
    startOf (fun j => (inBucket bucket items j).length) j + (inBucket bucket seen j).length
  segments : ∃ segments : List (List α), segments.flatten = state.2 ∧
    segments.map List.length = (List.range m).map (fun j => (inBucket bucket items j).length) ∧
    ∀ j, j < m → ((segments.getD j []).take (inBucket bucket seen j).length) =
      inBucket bucket seen j

theorem length_segment {segments : List (List α)} {sizes : Nat → Nat}
    (h : segments.map List.length = (List.range m).map sizes) {j : Nat} (hj : j < m) :
    (segments.getD j []).length = sizes j ∧ segments[j]? = some (segments.getD j []) := by
  have hlen : segments.length = m := by simpa using congrArg List.length h
  have hget : segments[j]? = some segments[j] := List.getElem?_eq_getElem (by omega)
  have hsize : (segments.map List.length)[j]? = some (sizes j) := by
    rw [h, List.getElem?_map, List.getElem?_range hj]
    rfl
  rw [List.getElem?_map, hget] at hsize
  rw [List.getD_eq_getElem?_getD, hget]
  exact ⟨by simpa using hsize, rfl⟩

/-- One write of the loop goes to the first free place of the item's bucket. -/
theorem Dealt.write {width : Nat} {seen rest : List α} {x : α} {state : List UInt32 × List α}
    (h : Dealt bucket m width items seen state) (hsplit : items = seen ++ x :: rest)
    (hn : items.length < 2 ^ 32) (hat : bucketAt x = Except.ok (bucket x)) (hx : bucket x < m) :
    Ends (do
      let bucket ← bucketAt x
      let offset ← fetch state.1 bucket
      let offsets ← assign state.1 bucket (offset + 1)
      let target ← assign state.2 offset.toNat x
      pure (offsets, target)) (Dealt bucket m width items (seen ++ [x])) E := by
  obtain ⟨segments, hflat, hlens, hfilled⟩ := h.segments
  have hoffsets := h.offsets_length
  have hwidth := h.buckets_le
  obtain ⟨hsize, hsegment⟩ := length_segment hlens hx
  -- the bucket has room: the item itself is still to come
  have hroom : (inBucket bucket seen (bucket x)).length <
      (inBucket bucket items (bucket x)).length := by
    have hwhole : inBucket bucket items (bucket x) = inBucket bucket seen (bucket x) ++
        (x :: inBucket bucket rest (bucket x)) := by
      rw [hsplit, inBucket, List.filter_append, List.filter_cons_of_pos (by simp)]
      rfl
    rw [hwhole, List.length_append, List.length_cons]
    omega
  have hstart : startOf (fun j => (inBucket bucket items j).length) (bucket x) =
      startOf (fun i => (segments.getD i []).length) (bucket x) :=
    startOf_congr fun i hi => (length_segment hlens (Nat.lt_trans hi hx)).1.symm
  rw [hat, ok_bind]
  refine Ends.bind (ends_fetch (by omega)) fun offset hget => ?_
  have hoffset : offset.toNat = startOf (fun i => (segments.getD i []).length) (bucket x) +
      (inBucket bucket seen (bucket x)).length := by
    rw [← wordAt_of_getElem? hget, h.offset _ hx, hstart]
  rw [assign_of_lt (by omega), ok_bind]
  -- the write falls into the target
  have hset := flatten_set (a := x) hsegment (hsize ▸ hroom)
  rw [← hoffset, hflat] at hset
  have hin : offset.toNat < state.2.length := by
    have hle : startOf (fun i => (segments.getD i []).length) (bucket x + 1) ≤
        startOf (fun i => (segments.getD i []).length) m := startOf_mono _ hx
    have htotal : startOf (fun i => (segments.getD i []).length) m = state.2.length := by
      rw [← hflat, List.length_flatten, hlens, startOf]
      congr 1
      refine List.map_congr_left fun i hi => ?_
      exact (length_segment hlens (List.mem_range.mp hi)).1
    rw [startOf_succ] at hle
    omega
  rw [assign_of_lt hin]
  have hsmall : offset.toNat + 1 < 2 ^ 32 := by
    have htotal : state.2.length = startOf (fun j => (inBucket bucket items j).length) m := by
      rw [← hflat, List.length_flatten, hlens, startOf]
    have hle : state.2.length ≤ items.length := by
      rw [htotal]
      have hperm := (byBucket_perm_filter bucket m items).length_eq
      rw [byBucket, List.length_flatten, List.map_map] at hperm
      have hfilter := List.length_filter_le (fun x => decide (bucket x < m)) items
      rw [startOf]
      show ((List.range m).map (List.length ∘ inBucket bucket items)).sum ≤ items.length
      omega
    omega
  refine ends_pure ⟨hwidth, by rw [List.length_set]; exact hoffsets, fun j hj => ?_, ?_⟩
  · show wordAt (state.1.set (bucket x) (offset + 1)) j = _
    rw [wordAt_set _ (by omega), inBucket_concat]
    by_cases hjx : j = bucket x
    · rw [if_pos hjx, if_pos hjx.symm, toNat_add_one hsmall, List.length_append,
        ← wordAt_of_getElem? hget, h.offset _ hx, ← hjx]
      rfl
    · rw [if_neg hjx, if_neg (Ne.symm hjx), h.offset j hj]
  · refine ⟨_, hset.symm, ?_, fun j hj => ?_⟩
    · rw [List.map_set, List.length_set, ← hlens]
      refine List.ext_getElem? fun i => ?_
      by_cases hi : i = bucket x
      · subst hi
        rw [List.getElem?_set_self (by
          rw [List.length_map, ← List.length_map (f := List.length), hlens]
          simpa using hx), List.getElem?_map, hsegment]
        rfl
      · rw [List.getElem?_set_ne (Ne.symm hi)]
    · rw [inBucket_concat]
      by_cases hjx : bucket x = j
      · subst hjx
        rw [if_pos rfl, List.getD_eq_getElem?_getD, List.getElem?_set_self (by
          rcases Nat.lt_or_ge (bucket x) segments.length with h | h
          · exact h
          · rw [List.getElem?_eq_none h] at hsegment
            exact absurd hsegment (by simp)), Option.getD_some, List.length_append,
          List.length_singleton, List.take_add_one, List.getElem?_set_self (hsize ▸ hroom),
          List.take_set_of_le (Nat.le_refl _), hfilled _ hx]
        rfl
      · rw [if_neg hjx, List.getD_eq_getElem?_getD, List.getElem?_set_ne hjx,
          ← List.getD_eq_getElem?_getD, hfilled j hj]

/-- **The writing loop deals the items into their buckets.** -/
theorem ends_scatter (offsets : List UInt32) (target : List α) (hm : m ≤ offsets.length)
    (hn : items.length < 2 ^ 32) (htarget : target.length = items.length)
    (hbucket : ∀ x ∈ items, bucketAt x = Except.ok (bucket x) ∧ bucket x < m)
    (hoffsets : ∀ j, j < m →
      wordAt offsets j = startOf (fun j => (inBucket bucket items j).length) j) :
    Ends (scatter bucketAt items.length items offsets target)
      (fun state => state.1.length = offsets.length ∧ state.2 = byBucket bucket m items) E := by
  rw [scatter, forIndex_eq_forEach _ _ _ _ (Nat.le_refl _), List.take_length]
  have htotal := startOf_inBucket bucket fun x hx => (hbucket x hx).2
  refine Ends.mono_post (ends_forEach (Dealt bucket m offsets.length items) [] ?_ ?_) ?_
  · refine ⟨hm, rfl, fun j hj => hoffsets j hj,
      ((List.range m).map fun j => (inBucket bucket items j).length).splitLengths target, ?_, ?_,
      fun j _ => rfl⟩
    · exact List.flatten_splitLengths _ _ (by rw [htarget, ← htotal]; exact Nat.le_refl _)
    · exact List.map_splitLengths_length _ _ (by rw [htarget, ← htotal]; exact Nat.le_refl _)
  · intro seen x rest state hsplit hdealt
    rw [List.nil_append] at hsplit
    have hx : x ∈ items := by rw [hsplit]; simp
    exact hdealt.write hsplit hn (hbucket x hx).1 (hbucket x hx).2
  · rintro ⟨offsets', target'⟩ hdealt
    obtain ⟨segments, hflat, hlens, hfilled⟩ := hdealt.segments
    -- every segment is full, so it is its bucket
    have hsegments : segments = (List.range m).map (inBucket bucket items) := by
      refine List.ext_getElem? fun j => ?_
      rcases Nat.lt_or_ge j m with hj | hj
      · obtain ⟨hsize, hget⟩ := length_segment hlens hj
        have hfull := hfilled j hj
        rw [List.nil_append, ← hsize, List.take_length] at hfull
        rw [hget, List.getElem?_map, List.getElem?_range hj, hfull]
        rfl
      · have hlen : segments.length = m := by simpa using congrArg List.length hlens
        rw [List.getElem?_eq_none (by omega), List.getElem?_eq_none (by simpa using hj)]
    refine ⟨hdealt.offsets_length, ?_⟩
    show target' = byBucket bucket m items
    rw [byBucket, ← hsegments, hflat]

theorem wordAt_replicate_zero {n j : Nat} (rest : List UInt32) (hj : j < n) :
    wordAt (List.replicate n 0 ++ rest) j = 0 := by
  refine (wordAt_of_getElem? (x := 0) ?_).trans rfl
  rw [List.getElem?_append_left (by simpa using hj), List.getElem?_replicate, if_pos hj]

/-- **Dealing puts the items into the target bucket by bucket.** -/
theorem ends_deal (target : List α) (hn : items.length < 2 ^ 32)
    (htarget : target.length = items.length)
    (hbucket : ∀ x ∈ items, bucketAt x = Except.ok (bucket x) ∧ bucket x < m) :
    Ends (deal bucketAt m items.length items target)
      (fun written => written = byBucket bucket m items) E := by
  have hzeros : (List.replicate m (0 : UInt32)).length = m := List.length_replicate
  have hsizes : startOf (fun j => (inBucket bucket items j).length) m < 2 ^ 32 := by
    rw [startOf_inBucket bucket fun x hx => (hbucket x hx).2]
    exact hn
  rw [deal]
  refine Ends.bind (ends_tally _ (Nat.le_of_eq hzeros.symm) hn hbucket fun j hj => ?_) ?_
  · have h := wordAt_replicate_zero [] hj
    rwa [List.append_nil] at h
  rintro counts ⟨hcounts, hsize⟩
  refine Ends.bind (ends_offsetsApart _ hsizes (by omega) (by omega) hsize) ?_
  rintro ⟨total, offsets⟩ ⟨hoffsets, hstarts⟩
  have hwide : m ≤ offsets.length := by rw [hoffsets]; omega
  refine Ends.bind (ends_scatter _ _ hwide hn htarget hbucket hstarts) ?_
  rintro ⟨offsets', written⟩ ⟨-, hwritten⟩
  exact ends_pure hwritten

end RunD
