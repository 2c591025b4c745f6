/-
The two strategies of scatter-reduce agree.

What a preflight must find is said without a strategy (`Preflighted`): it leaves
with the first index that is out of range, or it returns how many elements have
a target that one before them has.  There is at most one such outcome.  The
sorted keys find it because equal indices become neighbours
(`referencePreflight_finds`), the bitmap because the active word, written back
when it is left, adds a bit for each new target (`Tracks`, `cpuPreflight_finds`).
The fold after the preflight is the same for both.
-/
import RunD.ScatterReduce

namespace RunD.ScatterReduce

/-! ### What a preflight finds -/

/-- The first `count` indices are in range. -/
def InRange (plan : ScatterReducePlan) (indices : List UInt32) (count : Nat) : Prop :=
  ∀ ordinal < count, ∀ target, indices[ordinal]? = some target →
    target.toUInt64 < plan.outputCount

/-- The different targets of the first `count` elements. -/
def targets (indices : List UInt32) (count : Nat) : Finset Nat :=
  ((indices.take count).map UInt32.toNat).toFinset

/-- A result that rejects the first index that is out of range. -/
def RejectsFirst (plan : ScatterReducePlan) (indices : List UInt32) (count : Nat)
    (result : ScatterReduceResult) : Prop :=
  ∃ ordinal < count, InRange plan indices ordinal ∧
    (∃ target, indices[ordinal]? = some target ∧ ¬ target.toUInt64 < plan.outputCount) ∧
    result = reject plan (UInt64.ofNat ordinal) "compute_scatter_reduce_index_out_of_range"

/-- What a preflight of these indices finds. -/
def Preflighted (plan : ScatterReducePlan) (indices : List UInt32) (logicalCount : UInt64)
    (preflight : Reducing UInt64) : Prop :=
  Ends preflight
    (fun conflicts => InRange plan indices logicalCount.toNat ∧
      conflicts.toNat = logicalCount.toNat - (targets indices logicalCount.toNat).card)
    (RejectsFirst plan indices logicalCount.toNat)

section Preflight

variable {plan : ScatterReducePlan} {indices : List UInt32} {logicalCount : UInt64}

theorem InRange.next {count : Nat} (h : InRange plan indices count) {target : UInt32}
    (htarget : indices[count]? = some target) (hin : target.toUInt64 < plan.outputCount) :
    InRange plan indices (count + 1) := by
  intro ordinal hlt other hother
  rcases Nat.lt_succ_iff_lt_or_eq.mp hlt with hbefore | rfl
  · exact h ordinal hbefore other hother
  · rw [htarget] at hother
    obtain rfl := Option.some.inj hother
    exact hin

/-- Indices in range are not rejected. -/
theorem RejectsFirst.not_inRange {count : Nat} {result : ScatterReduceResult}
    (h : RejectsFirst plan indices count result) : ¬ InRange plan indices count := by
  obtain ⟨ordinal, hlt, -, ⟨target, htarget, hout⟩, -⟩ := h
  exact fun hall => hout (hall ordinal hlt target htarget)

/-- There is one first index that is out of range. -/
theorem RejectsFirst.unique {count : Nat} {first second : ScatterReduceResult}
    (h : RejectsFirst plan indices count first) (h' : RejectsFirst plan indices count second) :
    first = second := by
  obtain ⟨i, -, hi, ⟨target, htarget, hout⟩, rfl⟩ := h
  obtain ⟨j, -, hj, ⟨target', htarget', hout'⟩, rfl⟩ := h'
  have hsame : i = j := by
    rcases Nat.lt_trichotomy i j with hlt | heq | hgt
    · exact absurd (hj i hlt target htarget) hout
    · exact heq
    · exact absurd (hi j hgt target' htarget') hout'
  rw [hsame]

/-- **Two preflights that find what they must find are the same.** -/
theorem Preflighted.unique {first second : Reducing UInt64}
    (h : Preflighted plan indices logicalCount first)
    (h' : Preflighted plan indices logicalCount second) : first = second := by
  rcases first with (result | -) | conflicts
  · rcases second with (result' | -) | conflicts'
    · rw [RejectsFirst.unique h h']
    · exact absurd h' id
    · exact absurd h'.1 (RejectsFirst.not_inRange h)
  · exact absurd h id
  · rcases second with (result' | -) | conflicts'
    · exact absurd h.1 (RejectsFirst.not_inRange h')
    · exact absurd h' id
    · rw [UInt64.toNat_inj.mp (h.2.trans h'.2.symm)]

theorem targets_next {count : Nat} {target : UInt32} (htarget : indices[count]? = some target) :
    targets indices (count + 1) = insert target.toNat (targets indices count) := by
  rw [targets, List.take_add_one, htarget, Option.toList_some, List.map_append,
    List.toFinset_append, targets, Finset.union_comm]
  rfl

theorem targets_card_le (count : Nat) : (targets indices count).card ≤ count := by
  refine le_trans (List.toFinset_card_le _) ?_
  rw [List.length_map, List.length_take]
  exact Nat.min_le_left _ _

/-- The check of an index, in either preflight. -/
theorem ends_checkTarget {β : Type} {ordinal : Nat} {target : UInt32} {Q : β → Prop}
    {f : Unit → Reducing β}
    (hlt : ordinal < logicalCount.toNat) (hin : InRange plan indices ordinal)
    (htarget : indices[ordinal]? = some target)
    (hf : target.toUInt64 < plan.outputCount →
      Ends (f ()) Q (RejectsFirst plan indices logicalCount.toNat)) :
    Ends (require (target.toUInt64 < plan.outputCount)
        (reject plan (UInt64.ofNat ordinal) "compute_scatter_reduce_index_out_of_range") >>= f)
      Q (RejectsFirst plan indices logicalCount.toNat) := by
  apply Ends.require_bind
  · intro hout
    exact ⟨ordinal, hlt, hin, ⟨target, htarget, hout⟩, rfl⟩
  · exact hf

/-! ### Sorted keys -/

theorem copyIndices_finds {sortedIndices : List UInt32}
    (hindices : logicalCount.toNat ≤ indices.length)
    (hroom : logicalCount.toNat ≤ sortedIndices.length) :
    Ends (copyIndices plan indices logicalCount sortedIndices)
      (fun copied => InRange plan indices logicalCount.toNat ∧
        copied.take logicalCount.toNat = indices.take logicalCount.toNat)
      (RejectsFirst plan indices logicalCount.toNat) := by
  refine Ends.mono_post (ends_forRange (fun ordinal (copied : List UInt32) =>
    copied.length = sortedIndices.length ∧ InRange plan indices ordinal ∧
      copied.take ordinal = indices.take ordinal) ⟨rfl, ?_, rfl⟩ ?_) fun copied h => h.2
  · intro ordinal hlt
    exact absurd hlt (Nat.not_lt_zero ordinal)
  · rintro ordinal copied hlt ⟨hlength, hin, htake⟩
    have hget : indices[ordinal]? = some indices[ordinal] := List.getElem?_eq_getElem (by omega)
    rw [fetch_of_lt hget, ok_bind]
    refine ends_checkTarget hlt hin hget fun hok => ?_
    rw [assign_of_lt (by omega)]
    refine ⟨by rw [List.length_set, hlength], hin.next hget hok, ?_⟩
    rw [List.take_add_one, List.getElem?_set_self (by omega), List.take_set_of_le (Nat.le_refl _),
      htake, List.take_add_one, hget]

/-- The counting loop counts the neighbours. -/
theorem countConflicts_finds {sorted : List UInt32} {E : ScatterReduceResult → Prop}
    (hroom : logicalCount.toNat ≤ sorted.length) :
    Ends (countConflicts logicalCount sorted)
      (fun conflicts =>
        conflicts.toNat = neighbours ((sorted.take logicalCount.toNat).map UInt32.toNat)) E := by
  have hbound := logicalCount.toNat_lt
  refine Ends.mono_post (ends_forRange (fun turn (conflicts : UInt64) => conflicts.toNat ≤ turn ∧
    conflicts.toNat = neighbours ((sorted.take (turn + 1)).map UInt32.toNat)) ⟨?_, ?_⟩ ?_) ?_
  · exact Nat.le_refl 0
  · cases sorted with
    | nil => rfl
    | cons first rest => rfl
  · rintro turn conflicts hlt ⟨hle, hcount⟩
    have hfirst : sorted[turn]? = some sorted[turn] := List.getElem?_eq_getElem (by omega)
    have hsecond : sorted[turn + 1]? = some sorted[turn + 1] :=
      List.getElem?_eq_getElem (by omega)
    rw [fetch_of_lt hfirst, ok_bind, fetch_of_lt hsecond, ok_bind]
    have hshort : (sorted.take (turn + 1)).map UInt32.toNat =
        (sorted.take turn).map UInt32.toNat ++ [sorted[turn].toNat] := by
      rw [List.take_add_one, hfirst, List.map_append]
      rfl
    have hlong : (sorted.take (turn + 1 + 1)).map UInt32.toNat =
        (sorted.take turn).map UInt32.toNat ++ [sorted[turn].toNat, sorted[turn + 1].toNat] := by
      rw [List.take_add_one, hsecond, List.map_append, hshort, List.append_assoc]
      rfl
    rw [hshort] at hcount
    rw [hlong, neighbours_concat, ← hcount]
    by_cases hsame : sorted[turn] = sorted[turn + 1]
    · rw [if_pos hsame, if_pos (congrArg UInt32.toNat hsame)]
      have hnext : (conflicts + 1).toNat = conflicts.toNat + 1 :=
        toNat_add_of_fits (by show conflicts.toNat + 1 < _; omega)
      refine ends_pure ⟨?_, hnext⟩
      rw [hnext]
      omega
    · rw [if_neg hsame, if_neg fun h => hsame (UInt32.toNat_inj.mp h), UInt64.add_zero]
      exact ends_pure ⟨by omega, rfl⟩
  · rintro conflicts ⟨-, hcount⟩
    rw [hcount]
    by_cases hzero : logicalCount.toNat = 0
    · rw [hzero]
      cases sorted with
      | nil => rfl
      | cons first rest => rfl
    · rw [Nat.sub_add_cancel (by omega)]

/-- Sorting puts the first items in order. -/
theorem sortFirst_take {items : List UInt32} {count : Nat} (hcount : count ≤ items.length) :
    ((sortFirst count items).take count).Perm (items.take count) ∧
      (((sortFirst count items).take count).map UInt32.toNat).Pairwise (· ≤ ·) := by
  have hlength : ((items.take count).mergeSort fun left right => left ≤ right).length = count := by
    rw [List.length_mergeSort, List.length_take, Nat.min_eq_left hcount]
  have htake : (sortFirst count items).take count =
      (items.take count).mergeSort fun left right => left ≤ right := by
    rw [sortFirst, List.take_append_of_le_length (by omega), List.take_of_length_le (by omega)]
  rw [htake]
  refine ⟨List.mergeSort_perm _ _, ?_⟩
  rw [List.pairwise_map]
  have hsorted := @List.pairwise_mergeSort _ (fun (left right : UInt32) => decide (left ≤ right))
    (fun a b c hab hbc => by
      rw [decide_eq_true_iff, UInt32.le_iff_toNat_le] at hab hbc ⊢
      omega)
    (fun a b => by
      rw [Bool.or_eq_true, decide_eq_true_iff, decide_eq_true_iff, UInt32.le_iff_toNat_le,
        UInt32.le_iff_toNat_le]
      omega) (items.take count)
  exact hsorted.imp fun h => UInt32.le_iff_toNat_le.mp (of_decide_eq_true h)

/-- **The sorted keys find what a preflight must find.** -/
theorem referencePreflight_finds {sortedIndices : List UInt32} (hok : plan.ok = true)
    (hcount : logicalCount ≤ plan.elementCount) (hindices : logicalCount.toNat ≤ indices.length)
    (hroom : logicalCount.toNat ≤ sortedIndices.length) :
    Preflighted plan indices logicalCount
      (referencePreflight indices logicalCount plan sortedIndices) := by
  rw [referencePreflight]
  refine Ends.require_bind (fun h => absurd hok h) fun _ => ?_
  refine Ends.require_bind (fun h => absurd hcount h) fun _ => ?_
  refine Ends.require_bind (fun h => absurd (Or.inr hroom) h) fun _ => ?_
  refine Ends.bind (copyIndices_finds hindices hroom) ?_
  rintro copied ⟨hin, hcopied⟩
  have hlength : logicalCount.toNat ≤ copied.length := by
    have := congrArg List.length hcopied
    rw [List.length_take, List.length_take] at this
    omega
  -- what is counted are the neighbours of the indices in order
  have hsort : ∃ sorted, (if logicalCount > 1 then sortFirst logicalCount.toNat copied else copied) =
      sorted ∧ logicalCount.toNat ≤ sorted.length ∧
      (sorted.take logicalCount.toNat).Perm (indices.take logicalCount.toNat) ∧
      ((sorted.take logicalCount.toNat).map UInt32.toNat).Pairwise (· ≤ ·) := by
    by_cases hmany : logicalCount > 1
    · rw [if_pos hmany]
      obtain ⟨hperm, hsorted⟩ := sortFirst_take hlength
      rw [hcopied] at hperm
      refine ⟨_, rfl, ?_, hperm, hsorted⟩
      have := hperm.length_eq
      rw [List.length_take, List.length_take] at this
      omega
    · rw [if_neg hmany]
      refine ⟨_, rfl, hlength, by rw [hcopied], ?_⟩
      have hfew : logicalCount.toNat ≤ 1 :=
        UInt64.le_iff_toNat_le.mp (UInt64.not_lt.mp hmany)
      have hshort : ((copied.take logicalCount.toNat).map UInt32.toNat).length ≤ 1 := by
        rw [List.length_map, List.length_take]
        omega
      match hlist : (copied.take logicalCount.toNat).map UInt32.toNat with
      | [] => exact List.Pairwise.nil
      | [only] => exact List.pairwise_singleton _ _
      | first :: second :: rest =>
          rw [hlist] at hshort
          simp at hshort
  obtain ⟨sorted, heq, hsorted, hperm, hpairwise⟩ := hsort
  dsimp only
  rw [heq]
  refine Ends.mono_post (countConflicts_finds hsorted) fun conflicts hconflicts => ⟨hin, ?_⟩
  have hsum := neighbours_add_card hpairwise
  have hset : ((sorted.take logicalCount.toNat).map UInt32.toNat).toFinset =
      targets indices logicalCount.toNat := by
    apply List.toFinset_eq_of_perm
    exact hperm.map _
  rw [hset, List.length_map, List.length_take, Nat.min_eq_left hsorted] at hsum
  rw [hconflicts]
  omega

/-! ### Bits that were seen -/

/-- The bit that stands for a target in its word. -/
theorem testBit_or_bit (pending target : UInt32) (bit : Nat) :
    (pending ||| (1 <<< (target % 32))).toNat.testBit bit = true ↔
      pending.toNat.testBit bit = true ∨ bit = target.toNat % 32 := by
  have hshift : (1 <<< (target % 32) : UInt32).toNat = 2 ^ (target.toNat % 32) := by
    have hlt : target.toNat % 32 < 32 := Nat.mod_lt _ (by decide)
    have hpow : 2 ^ (target.toNat % 32) < 2 ^ 32 := Nat.pow_lt_pow_right (by decide) hlt
    rw [UInt32.toNat_shiftLeft, UInt32.toNat_mod]
    show 1 <<< (target.toNat % 32 % 32) % 2 ^ 32 = _
    rw [Nat.mod_mod, Nat.one_shiftLeft, Nat.mod_eq_of_lt hpow]
  rw [UInt32.toNat_or, Nat.testBit_or, hshift, Nat.testBit_two_pow, Bool.or_eq_true,
    decide_eq_true_iff, @eq_comm _ bit]

/-- The bitmap after a flush has the targets `seen`, and they are counted. -/
structure Flushed (words : Nat) (seen : Finset Nat) (now : Seen) : Prop where
  room : words ≤ now.scratch.length
  marked : members (now.scratch.take words) = seen
  counted : now.occupied.toNat = seen.card

/-- The bitmap with the pending word written back has the targets `seen`; what is counted are
the members without it. -/
structure Tracks (words : Nat) (seen : Finset Nat) (now : Seen) : Prop where
  room : words ≤ now.scratch.length
  short : seen.card < 2 ^ 64
  counted : now.occupied.toNat = (members (now.scratch.take words)).card
  /-- At the start no word is active. -/
  active : (now.activeWord = 0xFFFFFFFF ∧ now.pending = now.original ∧
      members (now.scratch.take words) = seen) ∨
    (now.activeWord.toNat < words ∧
      (now.scratch.take words)[now.activeWord.toNat]? = some now.original ∧
      (∀ bit, now.original.toNat.testBit bit = true → now.pending.toNat.testBit bit = true) ∧
      members ((now.scratch.take words).set now.activeWord.toNat now.pending) = seen)

section Bitmap

variable {words : Nat} {seen : Finset Nat} {now : Seen} {E : ScatterReduceResult → Prop}

/-- **A flush counts the bits that the active word has gained.** -/
theorem Tracks.flush (h : Tracks words seen now) : Ends (flush now) (Flushed words seen) E := by
  rw [ScatterReduce.flush]
  rcases h.active with ⟨-, hsame, hmarked⟩ | ⟨hlt, horiginal, hkeep, hmarked⟩
  · rw [if_neg (not_not_intro hsame)]
    exact ends_pure ⟨h.room, hmarked, by rw [h.counted, hmarked]⟩
  · by_cases hsame : now.pending = now.original
    · rw [if_neg (not_not_intro hsame)]
      rw [hsame, members_set_same horiginal] at hmarked
      exact ends_pure ⟨h.room, hmarked, by rw [h.counted, hmarked]⟩
    · have hroom := h.room
      have hgain := card_members_set horiginal hkeep
      rw [hmarked, ← h.counted, ← popcount_toNat, ← UInt32.toNat_toUInt64] at hgain
      rw [if_pos hsame, assign_of_lt (by omega)]
      refine ends_pure ⟨?_, ?_, ?_⟩
      · show words ≤ (now.scratch.set _ _).length
        rw [List.length_set]
        exact hroom
      · show members ((now.scratch.set _ _).take words) = seen
        rw [List.take_set, hmarked]
      · show (now.occupied + _).toNat = seen.card
        rw [toNat_add_of_fits (by have := h.short; omega), hgain]

/-- After the word of a target is made the active one, its bits are pending. -/
theorem Tracks.activate (h : Tracks words seen now) {word : UInt32} (hword : word.toNat < words) :
    Ends (activate word now) (fun next => Tracks words seen next ∧ next.activeWord = word) E := by
  rw [ScatterReduce.activate]
  by_cases hsame : word = now.activeWord
  · rw [if_neg (not_not_intro hsame)]
    exact ends_pure ⟨h, hsame.symm⟩
  · rw [if_pos hsame]
    refine Ends.bind h.flush fun flushed hflushed => ?_
    have hroom := hflushed.room
    refine Ends.bind (ends_fetch (by omega)) fun original horiginal => ?_
    have htaken : (flushed.scratch.take words)[word.toNat]? = some original := by
      rw [List.getElem?_take_of_lt hword]
      exact horiginal
    refine ends_pure ⟨⟨hroom, h.short, ?_, Or.inr ⟨hword, htaken, fun bit hbit => hbit, ?_⟩⟩, rfl⟩
    · show flushed.occupied.toNat = _
      rw [hflushed.counted, hflushed.marked]
    · show members ((flushed.scratch.take words).set word.toNat original) = seen
      rw [members_set_same htaken, hflushed.marked]

/-- A target whose word is active is seen. -/
theorem Tracks.mark (h : Tracks words seen now) {target : UInt32}
    (hactive : now.activeWord = target / 32) (hshort : (insert target.toNat seen).card < 2 ^ 64) :
    Tracks words (insert target.toNat seen)
      { now with pending := now.pending ||| (1 <<< (target % 32)) } := by
  have hword : now.activeWord.toNat = target.toNat / 32 := by
    rw [hactive, UInt32.toNat_div]
    rfl
  rcases h.active with ⟨hnone, -, -⟩ | ⟨hlt, horiginal, hkeep, hmarked⟩
  · -- the word of a target is never the one that stands for no word
    have hbound := target.toNat_lt
    rw [hnone] at hword
    have : (0xFFFFFFFF : UInt32).toNat = 4294967295 := rfl
    omega
  · have hplace : now.activeWord.toNat < (now.scratch.take words).length :=
      (List.getElem?_eq_some_iff.mp horiginal).1
    refine ⟨h.room, hshort, h.counted, Or.inr ⟨hlt, horiginal, ?_, ?_⟩⟩
    · intro bit hbit
      rw [UInt32.toNat_or, Nat.testBit_or, Bool.or_eq_true]
      exact Or.inl (hkeep bit hbit)
    · ext number
      rw [mem_members_set hplace, Finset.mem_insert, ← hmarked, mem_members_set hplace]
      by_cases hsame : number / 32 = now.activeWord.toNat
      · rw [if_pos hsame, if_pos hsame, testBit_or_bit, or_comm]
        refine or_congr_left ⟨fun h => by omega, fun h => by rw [h]⟩
      · rw [if_neg hsame, if_neg hsame]
        refine ⟨Or.inr, ?_⟩
        rintro (rfl | hmem)
        · exact absurd hword.symm hsame
        · exact hmem

end Bitmap

/-- Clearing the first words. -/
theorem ends_clearWords {count : Nat} {scratch : List UInt32} {E : ScatterReduceResult → Prop}
    (hroom : count ≤ scratch.length) :
    Ends (clearWords count scratch)
      (fun cleared => count ≤ cleared.length ∧ ∀ word ∈ cleared.take count, word = 0) E := by
  refine Ends.mono_post (ends_forRange (fun place (cleared : List UInt32) =>
    cleared.length = scratch.length ∧ ∀ word ∈ cleared.take place, word = 0) ⟨rfl, ?_⟩ ?_) ?_
  · intro word hmem
    rw [List.take_zero] at hmem
    exact absurd hmem List.not_mem_nil
  · rintro place cleared hlt ⟨hlength, hzero⟩
    rw [assign_of_lt (by omega)]
    refine ⟨by rw [List.length_set, hlength], ?_⟩
    intro word hmem
    rw [List.take_add_one, List.getElem?_set_self (by omega),
      List.take_set_of_le (Nat.le_refl _)] at hmem
    rcases List.mem_append.mp hmem with hold | hnew
    · exact hzero word hold
    · exact List.mem_singleton.mp hnew
  · rintro cleared ⟨hlength, hzero⟩
    exact ⟨by omega, hzero⟩

/-- The words of the bitmap have a bit for each place of the output. -/
theorem scratchWords_spec {outputCount : UInt64} {target : UInt32}
    (h : target.toUInt64 < outputCount) :
    (target / 32).toNat <
      (outputCount / 32 + (if outputCount % 32 ≠ 0 then 1 else 0)).toNat := by
  have hlt := UInt64.lt_iff_toNat_lt.mp h
  rw [UInt32.toNat_toUInt64] at hlt
  have hceil := @checkedCeil_toNat outputCount 32 (by decide)
  rw [checkedCeil, if_neg (by decide)] at hceil
  rw [hceil, UInt32.toNat_div]
  show target.toNat / 32 < outputCount.toNat / 32 + if outputCount.toNat % 32 = 0 then 0 else 1
  split_ifs with hexact
  · omega
  · omega

section Strategies

variable {cpu : ScatterReduceCpuPlan} {scratch : List UInt32}

/-- The bitmap counts the different targets. -/
theorem countOccupied_finds (hstrategy : cpu.scratchWords =
      plan.outputCount / 32 + if plan.outputCount % 32 ≠ 0 then 1 else 0)
    (hindices : logicalCount.toNat ≤ indices.length)
    (hroom : cpu.scratchWords.toNat ≤ scratch.length) :
    Ends (countOccupied plan cpu indices logicalCount scratch)
      (fun occupied => InRange plan indices logicalCount.toNat ∧
        occupied.toNat = (targets indices logicalCount.toNat).card)
      (RejectsFirst plan indices logicalCount.toNat) := by
  have hbound := logicalCount.toNat_lt
  rw [countOccupied]
  by_cases hzero : logicalCount = 0
  · subst hzero
    rw [if_neg (not_not_intro rfl)]
    refine ends_pure ⟨?_, rfl⟩
    intro ordinal hlt
    exact absurd hlt (Nat.not_lt_zero ordinal)
  · rw [if_pos hzero]
    refine Ends.bind (ends_clearWords hroom) ?_
    rintro cleared ⟨hlength, hclear⟩
    refine Ends.bind (ends_forRange (fun ordinal (now : Seen) => InRange plan indices ordinal ∧
      Tracks cpu.scratchWords.toNat (targets indices ordinal) now) ⟨?_, ?_⟩ ?_) ?_
    · intro ordinal hlt
      exact absurd hlt (Nat.not_lt_zero ordinal)
    · have hnone := members_zero hclear
      refine ⟨hlength, Nat.two_pow_pos 64, ?_, Or.inl ⟨rfl, rfl, hnone⟩⟩
      show 0 = (members (cleared.take _)).card
      rw [hnone, Finset.card_empty]
    · rintro ordinal now hlt ⟨hin, htracks⟩
      have hget : indices[ordinal]? = some indices[ordinal] := List.getElem?_eq_getElem (by omega)
      rw [seeTarget, fetch_of_lt hget, ok_bind]
      refine ends_checkTarget hlt hin hget fun hok => ?_
      have hword : (indices[ordinal] / 32).toNat < cpu.scratchWords.toNat := by
        rw [hstrategy]
        exact scratchWords_spec hok
      refine Ends.bind (htracks.activate hword) ?_
      rintro next ⟨hnext, hsame⟩
      have hcard := @targets_card_le indices (ordinal + 1)
      rw [targets_next hget] at hcard ⊢
      exact ends_pure ⟨hin.next hget hok, hnext.mark hsame (by omega)⟩
    · rintro now ⟨hin, htracks⟩
      refine Ends.bind htracks.flush fun flushed hflushed => ?_
      exact ends_pure ⟨hin, hflushed.counted⟩

/-- **The bitmap finds what a preflight must find.** -/
theorem cpuPreflight_finds (hok : plan.ok = true)
    (hstrategy : (planScatterReduceCpu plan).strategy = .seenBitmap)
    (hcount : logicalCount ≤ plan.elementCount) (hindices : logicalCount.toNat ≤ indices.length)
    (hroom : (planScatterReduceCpu plan).scratchWords.toNat ≤ scratch.length) :
    Preflighted plan indices logicalCount
      (cpuPreflight indices logicalCount plan (planScatterReduceCpu plan) scratch) := by
  have hwords : (planScatterReduceCpu plan).scratchWords =
      plan.outputCount / 32 + if plan.outputCount % 32 ≠ 0 then 1 else 0 := by
    rw [planScatterReduceCpu, hok, if_neg (by decide)] at hstrategy ⊢
    dsimp only at hstrategy ⊢
    by_cases hdense : plan.outputCount / 32 + (if plan.outputCount % 32 ≠ 0 then 1 else 0) ≤
        plan.elementCount
    · rw [if_pos hdense]
    · rw [if_neg hdense] at hstrategy
      cases hstrategy
  rw [cpuPreflight]
  refine Ends.require_bind (fun h => absurd hok h) fun _ => ?_
  refine Ends.require_bind (fun h => absurd hcount h) fun _ => ?_
  refine Ends.require_bind (fun h => absurd ⟨rfl, Or.inr hroom⟩ h) fun _ => ?_
  rw [hstrategy, if_neg (by decide)]
  refine Ends.bind (countOccupied_finds hwords hindices hroom) ?_
  rintro occupied ⟨hin, hoccupied⟩
  have hle := @targets_card_le indices logicalCount.toNat
  refine ends_pure ⟨hin, ?_⟩
  rw [UInt64.toNat_sub_of_le, hoccupied]
  rw [UInt64.le_iff_toNat_le, hoccupied]
  exact hle

end Strategies

end Preflight

/-! ### The fold -/

section Fold

variable {w : Nat} (signed : Bool) {values output : List (BitVec w)} {indices : List UInt32}
  {logicalCount : UInt64} {plan : ScatterReducePlan}

/-- The fold comes to its end when all indices are in range. -/
theorem foldScatterReduce_returns (fixed : Bool) (conflictCount : UInt64)
    (hin : InRange plan indices logicalCount.toNat) (hindices : logicalCount.toNat ≤ indices.length)
    (hvalues : logicalCount.toNat ≤ values.length)
    (houtput : plan.outputCount.toNat ≤ output.length) :
    ∃ result output', foldScatterReduce signed values indices output logicalCount plan fixed
        conflictCount = Except.ok (result, output') ∧ result.ok = true ∧
      result.conflictCount = conflictCount := by
  obtain ⟨started, hstart, hlength⟩ : ∃ started, forRange plan.outputCount.toNat
      (fun target output => assign output target (identity signed plan.op)) output =
        (Except.ok started : Reducing (List (BitVec w))) ∧ started.length = output.length := by
    refine forRange_returns (fun _ (now : List (BitVec w)) => now.length = output.length) rfl ?_
    intro target now hlt hlen
    rw [assign_of_lt (by omega)]
    exact ⟨_, rfl, by rw [List.length_set, hlen]⟩
  obtain ⟨folded, hfold, -⟩ : ∃ folded, forRange logicalCount.toNat (fun ordinal output => do
      let target ← fetch indices ordinal
      let selected ← fetch output target.toNat
      let value ← fetch values ordinal
      assign output target.toNat (combine signed plan fixed selected value)) started =
        (Except.ok folded : Reducing (List (BitVec w))) ∧ folded.length = output.length := by
    refine forRange_returns (fun _ (now : List (BitVec w)) => now.length = output.length) hlength ?_
    intro ordinal now hlt hlen
    have hget : indices[ordinal]? = some indices[ordinal] := List.getElem?_eq_getElem (by omega)
    have hvalue : values[ordinal]? = some values[ordinal] := List.getElem?_eq_getElem (by omega)
    have htarget := UInt64.lt_iff_toNat_lt.mp (hin ordinal hlt _ hget)
    rw [UInt32.toNat_toUInt64] at htarget
    have hselected : now[indices[ordinal].toNat]? = some now[indices[ordinal].toNat] :=
      List.getElem?_eq_getElem (by omega)
    rw [fetch_of_lt hget, ok_bind, fetch_of_lt hselected, ok_bind, fetch_of_lt hvalue, ok_bind,
      assign_of_lt (by omega)]
    exact ⟨_, rfl, by rw [List.length_set, hlen]⟩
  rw [foldScatterReduce, hstart, ok_bind, hfold, ok_bind]
  exact ⟨_, _, rfl, rfl, rfl⟩

/-- What a preflight that finds what it must find leads to. -/
theorem reduceAfter_returns {preflight : Reducing UInt64} (fixed : Bool)
    (hpreflight : Preflighted plan indices logicalCount preflight)
    (hindices : logicalCount.toNat ≤ indices.length) (hvalues : logicalCount.toNat ≤ values.length)
    (houtput : plan.outputCount.toNat ≤ output.length) :
    ∃ result output', reduceAfter signed preflight values indices output logicalCount plan fixed =
        Except.ok (result, output') ∧
      (result.ok = true → result.conflictCount.toNat =
        logicalCount.toNat - (targets indices logicalCount.toNat).card) ∧
      (result.ok = false → output' = output) := by
  rcases preflight with (result | -) | conflicts
  · refine ⟨result, output, rfl, ?_, fun _ => rfl⟩
    obtain ⟨ordinal, -, -, -, rfl⟩ := hpreflight
    intro hok
    cases hok
  · exact absurd hpreflight id
  · obtain ⟨hin, hcount⟩ := hpreflight
    obtain ⟨result, output', hrun, hok, hconflicts⟩ :=
      foldScatterReduce_returns signed fixed conflicts hin hindices hvalues houtput
    refine ⟨result, output', hrun, fun _ => by rw [hconflicts, hcount], fun hno => ?_⟩
    rw [hok] at hno
    cases hno

end Fold

/-! ### The strategies -/

/-- Buffers that are as long as a plan and a logical count ask for. -/
structure Buffered {w : Nat} (plan : ScatterReducePlan) (logicalCount : UInt64)
    (values output : List (BitVec w)) (indices scratch sortedIndices : List UInt32) : Prop where
  values : min logicalCount.toNat plan.elementCount.toNat ≤ values.length
  indices : min logicalCount.toNat plan.elementCount.toNat ≤ indices.length
  output : plan.outputCount.toNat ≤ output.length
  scratch : (planScatterReduceCpu plan).scratchWords.toNat ≤ scratch.length
  sortedIndices : min logicalCount.toNat plan.elementCount.toNat ≤ sortedIndices.length

/-- **The strategies of scatter-reduce agree**: for an accepted plan that the CPU runs with the
bitmap, the bitmap and the sorted keys give the same result and the same output, whatever was in
their scratch.  The conflicts are the elements without the different targets, and a rejected run
leaves the output alone. -/
theorem executeScatterReduceCpu_eq_reference {w : Nat} (signed : Bool) (desc : ScatterReduceDesc)
    (logicalCount : UInt64) (values output : List (BitVec w))
    (indices scratch sortedIndices : List UInt32) (hok : (planScatterReduce desc).ok = true)
    (hstrategy : (planScatterReduceCpu (planScatterReduce desc)).strategy = .seenBitmap)
    (hbuffers : Buffered (planScatterReduce desc) logicalCount values output indices scratch
      sortedIndices) :
    ∃ result output',
      executeScatterReduceCpu signed values indices output logicalCount (planScatterReduce desc)
        (planScatterReduceCpu (planScatterReduce desc)) scratch = Except.ok (result, output') ∧
      referenceScatterReduce signed values indices output logicalCount (planScatterReduce desc)
        ((planScatterReduce desc).domain == .fixed) sortedIndices = Except.ok (result, output') ∧
      (result.ok = true → result.conflictCount.toNat =
        logicalCount.toNat - (targets indices logicalCount.toNat).card) ∧
      (result.ok = false → output' = output) := by
  generalize planScatterReduce desc = plan at hok hstrategy hbuffers ⊢
  rw [executeScatterReduceCpu, referenceScatterReduce]
  by_cases hcount : logicalCount ≤ plan.elementCount
  · have hmin : min logicalCount.toNat plan.elementCount.toNat = logicalCount.toNat :=
      Nat.min_eq_left (UInt64.le_iff_toNat_le.mp hcount)
    have hvalues := hmin ▸ hbuffers.values
    have hindices := hmin ▸ hbuffers.indices
    have hsorted := hmin ▸ hbuffers.sortedIndices
    have hcpu := cpuPreflight_finds hok hstrategy hcount hindices hbuffers.scratch
    have hreference := referencePreflight_finds hok hcount hindices hsorted
    rw [hcpu.unique hreference]
    obtain ⟨result, output', hrun, hconflicts, hkept⟩ :=
      reduceAfter_returns signed (plan.domain == .fixed) hreference hindices hvalues hbuffers.output
    exact ⟨result, output', hrun, hrun, hconflicts, hkept⟩
  · -- both reject a count that the plan has no elements for
    have hrejects : ∀ preflight : Reducing UInt64,
        preflight = Except.error (Stop.reject (reject plan plan.elementCount
          "compute_scatter_reduce_count_out_of_range")) →
        reduceAfter signed preflight values indices output logicalCount plan
          (plan.domain == .fixed) = Except.ok (reject plan plan.elementCount
            "compute_scatter_reduce_count_out_of_range", output) := by
      rintro preflight rfl
      rfl
    refine ⟨_, output, hrejects _ ?_, hrejects _ ?_, ?_, fun _ => rfl⟩
    · rw [cpuPreflight, require, if_pos hok]
      show (require (logicalCount ≤ plan.elementCount) _ >>= _) = _
      rw [require, if_neg hcount]
      rfl
    · rw [referencePreflight, require, if_pos hok]
      show (require (logicalCount ≤ plan.elementCount) _ >>= _) = _
      rw [require, if_neg hcount]
      rfl
    · intro h
      cases h

/-- Four elements, of which two have a target that one before them has. -/
theorem executeScatterReduceCpu_eq_reference_four :
    ∃ result output',
      executeScatterReduceCpu true [1#32, 2#32, 3#32, 4#32] [1, 0, 1, 1] [9#32, 9#32] 4
        (planScatterReduce { domain := .i32, elementCount := 4, outputCount := 2 })
        (planScatterReduceCpu
          (planScatterReduce { domain := .i32, elementCount := 4, outputCount := 2 })) [7] =
        Except.ok (result, output') ∧
      referenceScatterReduce true [1#32, 2#32, 3#32, 4#32] [1, 0, 1, 1] [9#32, 9#32] 4
        (planScatterReduce { domain := .i32, elementCount := 4, outputCount := 2 })
        ((planScatterReduce { domain := .i32, elementCount := 4, outputCount := 2 }).domain ==
          .fixed) [0, 0, 0, 0] = Except.ok (result, output') ∧
      (result.ok = true → result.conflictCount.toNat =
        (4 : UInt64).toNat - (targets [1, 0, 1, 1] (4 : UInt64).toNat).card) ∧
      (result.ok = false → output' = [9#32, 9#32]) :=
  executeScatterReduceCpu_eq_reference true
    { domain := .i32, elementCount := 4, outputCount := 2 } 4 _ _ _ [7] [0, 0, 0, 0] (by decide)
    (by decide) ⟨by decide, by decide, by decide, by decide, by decide⟩

end RunD.ScatterReduce
