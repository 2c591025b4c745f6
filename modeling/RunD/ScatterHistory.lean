/-
Scatters that share one scratch are the reference scatters.

What the table holds during a scatter is said by `Holds`: the targets marked so
far are found by the search, what is marked in this epoch is one of them, and no
more slots are taken than there are targets.  The table has twice as many slots
as the scatter has elements, so the search meets a free slot, and it tells a new
target from a seen one (`Holds.mark`).  Between scatters it is enough that no
mark exceeds the epoch (`Clean`): the next epoch then finds all slots free,
whatever a rejected scatter has left behind.  Over a history of scatters the
backend therefore gives what the reference gives (`scatterHistory_eq_reference`).
-/
import RunD.ScatterModel

namespace RunD.Scatter

/-! ### Outcomes of a search -/

/-- The slot that the search for a target looks at after `d` steps. -/
def slotAt (size : Nat) (target : UInt32) (d : Nat) : Nat :=
  (target.toNat * 2654435761 + d) % size

/-- A slot that is taken in this epoch. -/
def Live (epoch : UInt32) (scratch : ScatterScratch) (slot : Nat) : Prop :=
  scratch.marks[slot]? = some epoch

/-- A target put into a slot. -/
def ScatterScratch.put (scratch : ScatterScratch) (slot : Nat) (epoch target : UInt32) :
    ScatterScratch :=
  { scratch with marks := scratch.marks.set slot epoch, keys := scratch.keys.set slot target }

/-- How the search for a target ends: at the target, or at a free slot that no slot with the
target comes before. -/
inductive Searched (size : Nat) (epoch target : UInt32) (scratch : ScatterScratch) :
    Bool × ScatterScratch → Prop where
  | taken (d : Nat) (inside : d < size) (live : Live epoch scratch (slotAt size target d))
      (key : scratch.keys[slotAt size target d]? = some target) :
      Searched size epoch target scratch (false, scratch)
  | free (d : Nat) (inside : d < size) (empty : ¬ Live epoch scratch (slotAt size target d))
      (passed : ∀ e < d, Live epoch scratch (slotAt size target e) ∧
        scratch.keys[slotAt size target e]? ≠ some target) :
      Searched size epoch target scratch
        (true, scratch.put (slotAt size target d) epoch target)

section Search

variable {size : Nat} {epoch target : UInt32} {scratch : ScatterScratch}

theorem slotAt_lt (hsize : 0 < size) (target : UInt32) (d : Nat) : slotAt size target d < size :=
  Nat.mod_lt _ hsize

/-- The slot after a slot. -/
theorem slotAt_next (hpow : ∃ k, size = 2 ^ k) (d : Nat) :
    (slotAt size target d + 1) &&& (size - 1) = slotAt size target (d + 1) := by
  rw [and_mask hpow rfl, slotAt, slotAt, Nat.mod_add_mod, Nat.add_assoc]

/-- The search from a slot on, when it is known that the slots before have other targets and that
a free slot is still ahead. -/
theorem probeLoop_searched (hpow : ∃ k, size = 2 ^ k) (hkeys : size ≤ scratch.keys.length)
    (hmarks : size ≤ scratch.marks.length) {turns d : Nat} (hturns : d + turns = size)
    (hpassed : ∀ e < d, Live epoch scratch (slotAt size target e) ∧
      scratch.keys[slotAt size target e]? ≠ some target)
    (hahead : ∃ e, d ≤ e ∧ e < size ∧ ¬ Live epoch scratch (slotAt size target e)) :
    ∃ outcome, probeLoop scratch (size - 1) epoch target turns (slotAt size target d) =
      Except.ok outcome ∧ Searched size epoch target scratch outcome := by
  have hpos : 0 < size := by
    obtain ⟨e, -, hlt, -⟩ := hahead
    omega
  induction turns generalizing d with
  | zero =>
      obtain ⟨e, hde, hlt, -⟩ := hahead
      omega
  | succ turns ih =>
      have hslot := slotAt_lt hpos target d
      obtain ⟨mark, hmark⟩ : ∃ mark, scratch.marks[slotAt size target d]? = some mark :=
        ⟨_, List.getElem?_eq_getElem (by omega)⟩
      obtain ⟨key, hkey⟩ : ∃ key, scratch.keys[slotAt size target d]? = some key :=
        ⟨_, List.getElem?_eq_getElem (by omega)⟩
      rw [probeLoop, fetch_of_lt hmark, ok_bind]
      by_cases hlive : mark = epoch
      · subst hlive
        rw [if_pos rfl, fetch_of_lt hkey, ok_bind]
        by_cases hsame : key = target
        · subst hsame
          rw [if_pos rfl]
          exact ⟨_, rfl, Searched.taken d (by omega) hmark hkey⟩
        · rw [if_neg hsame, slotAt_next hpow]
          apply ih (by omega)
          · intro e he
            rcases Nat.lt_succ_iff_lt_or_eq.mp he with hlt | rfl
            · exact hpassed e hlt
            · refine ⟨hmark, ?_⟩
              rw [hkey]
              exact fun h => hsame (Option.some.inj h)
          · -- the free slot is not this one
            obtain ⟨e, hde, hlt, hfree⟩ := hahead
            refine ⟨e, ?_, hlt, hfree⟩
            rcases Nat.lt_or_eq_of_le hde with h | rfl
            · exact h
            · exact absurd hmark hfree
      · rw [if_neg hlive, assign_of_lt (by omega), ok_bind, assign_of_lt (by omega), ok_bind]
        refine ⟨_, rfl, Searched.free d (by omega) ?_ hpassed⟩
        intro h
        rw [Live, hmark] at h
        exact hlive (Option.some.inj h)

end Search

/-! ### The table during a scatter -/

/-- What the table holds when the targets `seen` are marked in this epoch. -/
structure Holds (size : Nat) (epoch : UInt32) (seen : List UInt32) (scratch : ScatterScratch) :
    Prop where
  keysRoom : size ≤ scratch.keys.length
  marksRoom : size ≤ scratch.marks.length
  /-- The search for a target that was seen comes to it. -/
  reached : ∀ target ∈ seen, ∃ d < size, scratch.keys[slotAt size target d]? = some target ∧
    ∀ e ≤ d, Live epoch scratch (slotAt size target e)
  /-- What is in a taken slot was seen. -/
  held : ∀ slot < size, Live epoch scratch slot → ∃ target ∈ seen,
    scratch.keys[slot]? = some target
  few : (scratch.marks.take size).count epoch ≤ seen.length

namespace Holds

variable {size : Nat} {epoch : UInt32} {seen : List UInt32} {scratch : ScatterScratch}

/-- While fewer targets are marked than there are slots, a search meets a free slot. -/
theorem exists_free (h : Holds size epoch seen scratch) (hseen : seen.length < size)
    (target : UInt32) : ∃ d < size, ¬ Live epoch scratch (slotAt size target d) := by
  have hlen : (scratch.marks.take size).length = size := by
    rw [List.length_take, Nat.min_eq_left h.marksRoom]
  have hsome : ¬ ∀ mark ∈ scratch.marks.take size, epoch = mark := by
    intro hall
    have hcount := List.count_eq_length.mpr hall
    have hfew := h.few
    omega
  push Not at hsome
  obtain ⟨mark, hmem, hne⟩ := hsome
  obtain ⟨slot, hslot, hget⟩ := List.mem_iff_getElem.mp hmem
  rw [List.getElem_take] at hget
  rw [hlen] at hslot
  obtain ⟨d, hd, hprobe⟩ := exists_probe
    (Nat.mod_lt (target.toNat * 2654435761) (by omega : 0 < size)) hslot
  refine ⟨d, hd, ?_⟩
  have hroom := h.marksRoom
  rw [slotAt, ← Nat.mod_add_mod, hprobe, Live, List.getElem?_eq_getElem (by omega), hget]
  exact fun heq => hne (Option.some.inj heq).symm

/-- A new target put into the first free slot of its search. -/
theorem put (h : Holds size epoch seen scratch) {target : UInt32} {d : Nat} (hd : d < size)
    (hempty : ¬ Live epoch scratch (slotAt size target d))
    (hpassed : ∀ e < d, Live epoch scratch (slotAt size target e)) :
    Holds size epoch (seen ++ [target]) (scratch.put (slotAt size target d) epoch target) := by
  have hslot := slotAt_lt (by omega : 0 < size) target d
  have hkeys := h.keysRoom
  have hmarks := h.marksRoom
  -- a slot that was taken is another one, and stays as it was
  have hother : ∀ slot, Live epoch scratch slot → slotAt size target d ≠ slot := by
    rintro slot hlive rfl
    exact hempty hlive
  have hlive : ∀ slot, Live epoch scratch slot →
      Live epoch (scratch.put (slotAt size target d) epoch target) slot := by
    intro slot hold
    show (scratch.marks.set _ epoch)[slot]? = some epoch
    rw [List.getElem?_set_ne (hother slot hold)]
    exact hold
  have hnow : Live epoch (scratch.put (slotAt size target d) epoch target)
      (slotAt size target d) := List.getElem?_set_self (by omega)
  have hkept : ∀ slot, Live epoch scratch slot →
      (scratch.put (slotAt size target d) epoch target).keys[slot]? = scratch.keys[slot]? :=
    fun slot hold => List.getElem?_set_ne (hother slot hold)
  refine ⟨?_, ?_, ?_, ?_, ?_⟩
  · show size ≤ (scratch.keys.set _ _).length
    rw [List.length_set]
    exact hkeys
  · show size ≤ (scratch.marks.set _ _).length
    rw [List.length_set]
    exact hmarks
  · intro other hmem
    rcases List.mem_append.mp hmem with hold | hnew
    · obtain ⟨e, he, hkey, hway⟩ := h.reached other hold
      refine ⟨e, he, ?_, fun f hf => hlive _ (hway f hf)⟩
      rw [hkept _ (hway e (Nat.le_refl e))]
      exact hkey
    · obtain rfl := List.mem_singleton.mp hnew
      refine ⟨d, hd, List.getElem?_set_self (by omega), ?_⟩
      intro e he
      rcases Nat.lt_or_eq_of_le he with hlt | rfl
      · exact hlive _ (hpassed e hlt)
      · exact hnow
  · intro slot hlt hlive'
    by_cases hsame : slotAt size target d = slot
    · subst hsame
      exact ⟨target, by simp, List.getElem?_set_self (by omega)⟩
    · have hold : Live epoch scratch slot := by
        rw [Live, ← List.getElem?_set_ne hsame]
        exact hlive'
      obtain ⟨other, hmem, hkey⟩ := h.held slot hlt hold
      refine ⟨other, by simp [hmem], ?_⟩
      rw [hkept slot hold]
      exact hkey
  · show ((scratch.marks.set _ epoch).take size).count epoch ≤ _
    have hfew := h.few
    rw [List.take_set, List.count_set (by rw [List.length_take]; omega), beq_self_eq_true, if_pos rfl,
      List.length_append, List.length_singleton]
    omega

/-- **Marking a target tells whether it was seen, and remembers it.** -/
theorem mark (h : Holds size epoch seen scratch) (hpow : ∃ k, size = 2 ^ k)
    (hseen : seen.length < size) (target : UInt32) :
    ∃ scratch', markScatterTarget scratch size epoch target =
        Except.ok (decide (target ∉ seen), scratch') ∧
      (target ∈ seen → scratch' = scratch) ∧
      (target ∉ seen → Holds size epoch (seen ++ [target]) scratch' ∧
        ∃ slot, scratch' = scratch.put slot epoch target) := by
  obtain ⟨e, he, hfree⟩ := h.exists_free hseen target
  obtain ⟨outcome, hrun, hsearched⟩ := probeLoop_searched hpow h.keysRoom h.marksRoom
    (Nat.zero_add size) (fun e he => absurd he (Nat.not_lt_zero e)) ⟨e, Nat.zero_le e, he, hfree⟩
  have hstart : (target.toNat * 2654435761) &&& (size - 1) = slotAt size target 0 := by
    rw [and_mask hpow rfl, slotAt, Nat.add_zero]
  rw [markScatterTarget, hstart, hrun]
  cases hsearched with
  | taken d hd hlive hkey =>
      obtain ⟨other, hmem, hheld⟩ := h.held _ (slotAt_lt (by omega) target d) hlive
      have hsame : target = other := Option.some.inj (hkey.symm.trans hheld)
      subst hsame
      refine ⟨scratch, by rw [decide_eq_false (not_not_intro hmem)], fun _ => rfl, ?_⟩
      exact fun hnew => absurd hmem hnew
  | free d hd hempty hpassed =>
      have hnew : target ∉ seen := by
        intro hmem
        obtain ⟨f, -, hkey, hway⟩ := h.reached target hmem
        rcases Nat.lt_or_ge f d with hlt | hge
        · exact (hpassed f hlt).2 hkey
        · exact hempty (hway d hge)
      refine ⟨_, by rw [decide_eq_true hnew], fun hmem => absurd hmem hnew, fun _ => ⟨?_, _, rfl⟩⟩
      exact h.put hd hempty fun e he => (hpassed e he).1

end Holds

/-! ### The table between scatters -/

/-- No mark exceeds the epoch. -/
def ScatterScratch.Clean (scratch : ScatterScratch) : Prop :=
  ∀ mark ∈ scratch.marks, mark.toNat ≤ scratch.epoch.toNat

theorem ScatterScratch.Clean.put {scratch : ScatterScratch} (h : scratch.Clean) (slot : Nat)
    (target : UInt32) : (scratch.put slot scratch.epoch target).Clean := by
  intro mark hmem
  rcases List.mem_or_eq_of_mem_set hmem with hold | rfl
  · exact h mark hold
  · exact Nat.le_refl _

/-- The scratch with which a scatter starts. -/
def ScatterScratch.started (scratch : ScatterScratch) (size : Nat) : ScatterScratch :=
  nextScatterEpoch
    { scratch with
      keys := ensureScatterCapacity scratch.keys size
      marks := ensureScatterCapacity scratch.marks size }

theorem ensureScatterCapacity_length (buffer : List UInt32) (size : Nat) :
    size ≤ (ensureScatterCapacity buffer size).length := by
  unfold ensureScatterCapacity
  by_cases hbig : buffer.length ≥ size
  · rw [if_pos hbig]
    exact hbig
  · rw [if_neg hbig, List.length_append, List.length_replicate]
    omega

theorem mem_ensureScatterCapacity {buffer : List UInt32} {size : Nat} {mark : UInt32}
    (h : mark ∈ ensureScatterCapacity buffer size) : mark ∈ buffer ∨ mark = 0 := by
  unfold ensureScatterCapacity at h
  by_cases hbig : buffer.length ≥ size
  · rw [if_pos hbig] at h
    exact Or.inl h
  · rw [if_neg hbig] at h
    rcases List.mem_append.mp h with hold | hnew
    · exact Or.inl hold
    · exact Or.inr (List.eq_of_mem_replicate hnew)

/-- A scatter starts in an epoch that no mark has. -/
theorem nextScatterEpoch_marks {scratch : ScatterScratch} (h : scratch.Clean) :
    ∀ mark ∈ (nextScatterEpoch scratch).marks,
      mark.toNat < (nextScatterEpoch scratch).epoch.toNat := by
  unfold nextScatterEpoch
  by_cases hlast : scratch.epoch = 0xFFFFFFFF
  · rw [if_pos hlast]
    intro mark hmem
    obtain ⟨old, -, rfl⟩ := List.mem_map.mp hmem
    show 0 < 1
    exact Nat.zero_lt_one
  · rw [if_neg hlast]
    intro mark hmem
    have hle := h mark hmem
    have hroom : scratch.epoch.toNat + 1 < 2 ^ 32 := by
      have hlt := scratch.epoch.toNat_lt
      have hne : scratch.epoch.toNat ≠ 2 ^ 32 - 1 := fun heq =>
        hlast (UInt32.toNat_inj.mp heq)
      omega
    show mark.toNat < (scratch.epoch + 1).toNat
    rw [UInt32.toNat_add]
    show mark.toNat < (scratch.epoch.toNat + 1) % 2 ^ 32
    rw [Nat.mod_eq_of_lt hroom]
    exact Nat.lt_succ_of_le hle

theorem nextScatterEpoch_lengths (scratch : ScatterScratch) :
    (nextScatterEpoch scratch).keys = scratch.keys ∧
      (nextScatterEpoch scratch).marks.length = scratch.marks.length := by
  unfold nextScatterEpoch
  by_cases hlast : scratch.epoch = 0xFFFFFFFF
  · rw [if_pos hlast]
    exact ⟨rfl, List.length_map ..⟩
  · rw [if_neg hlast]
    exact ⟨rfl, rfl⟩

/-- **A scatter starts with an empty table**, whatever the scatters before have left. -/
theorem ScatterScratch.Clean.started {scratch : ScatterScratch} (h : scratch.Clean) (size : Nat) :
    (scratch.started size).Clean ∧
      Holds size (scratch.started size).epoch [] (scratch.started size) := by
  have hgrown : ScatterScratch.Clean
      { scratch with
        keys := ensureScatterCapacity scratch.keys size
        marks := ensureScatterCapacity scratch.marks size } := by
    intro mark hmem
    rcases mem_ensureScatterCapacity hmem with hold | rfl
    · exact h mark hold
    · exact Nat.zero_le _
  have hless := nextScatterEpoch_marks hgrown
  obtain ⟨hkeys, hmarks⟩ := nextScatterEpoch_lengths
    { scratch with
      keys := ensureScatterCapacity scratch.keys size
      marks := ensureScatterCapacity scratch.marks size }
  have hnone : (scratch.started size).epoch ∉ (scratch.started size).marks :=
    fun hmem => Nat.lt_irrefl _ (hless _ hmem)
  refine ⟨fun mark hmem => Nat.le_of_lt (hless mark hmem), ?_, ?_, ?_, ?_, ?_⟩
  · rw [ScatterScratch.started, hkeys]
    exact ensureScatterCapacity_length _ _
  · rw [ScatterScratch.started, hmarks]
    exact ensureScatterCapacity_length _ _
  · intro target hmem
    exact absurd hmem (List.not_mem_nil)
  · intro slot _ hlive
    exact absurd (List.mem_of_getElem? hlive) hnone
  · rw [List.count_eq_zero.mpr fun hmem => hnone (List.mem_of_mem_take hmem)]
    exact Nat.zero_le _

/-! ### The loops -/

/-- The reference looks whether a target is among the earlier indices. -/
theorem priorLoop_eq {indices : List UInt32} (target : UInt32) {turns prior : Nat}
    (h : prior + turns ≤ indices.length) :
    priorLoop indices target turns prior =
      Except.ok (decide (target ∈ (indices.drop prior).take turns)) := by
  induction turns generalizing prior with
  | zero => rfl
  | succ turns ih =>
      have hget : indices[prior]? = some indices[prior] := List.getElem?_eq_getElem (by omega)
      have hsplit : (indices.drop prior).take (turns + 1) =
          indices[prior] :: (indices.drop (prior + 1)).take turns := by
        rw [List.drop_eq_getElem_cons (by omega), List.take_succ_cons]
      rw [priorLoop, fetch_of_lt hget, ok_bind, hsplit]
      by_cases hsame : indices[prior] = target
      · rw [if_pos hsame, decide_eq_true (List.mem_cons.mpr (Or.inl hsame.symm))]
        rfl
      · rw [if_neg hsame, ih (by omega)]
        simp only [List.mem_cons, Ne.symm hsame, false_or]

section Loops

variable {indices : List UInt32} {elementCount outputCount : UInt64} {size : Nat} {epoch : UInt32}

/-- **The marking loop rejects what the reference rejects**, and when neither rejects, all
targets are in range. -/
theorem markLoop_eq (hpow : ∃ k, size = 2 ^ k) {turns index : Nat} {scratch : ScatterScratch}
    (hindices : index + turns ≤ indices.length) (hroom : index + turns ≤ size)
    (hepoch : scratch.epoch = epoch) (hclean : scratch.Clean)
    (hholds : Holds size epoch (indices.take index) scratch) :
    ∃ scratch' rejected,
      markLoop size epoch indices elementCount outputCount turns index scratch =
        Except.ok (scratch', rejected) ∧
      referenceLoop indices elementCount outputCount turns index = Except.ok rejected ∧
      scratch'.Clean ∧ (∀ result, rejected = some result → result.ok = false) ∧
      (rejected = none → ∀ i, index ≤ i → i < index + turns → ∀ target,
        indices[i]? = some target → target.toUInt64 < outputCount) := by
  induction turns generalizing index scratch with
  | zero =>
      refine ⟨scratch, none, rfl, rfl, hclean, ?_, ?_⟩
      · intro result h
        cases h
      · intro _ i hle hlt
        omega
  | succ turns ih =>
      have hget : indices[index]? = some indices[index] := List.getElem?_eq_getElem (by omega)
      rw [markLoop, referenceLoop, fetch_of_lt hget, ok_bind, ok_bind]
      by_cases hbig : indices[index].toUInt64 ≥ outputCount
      · rw [if_pos hbig, if_pos hbig]
        refine ⟨scratch, _, rfl, rfl, hclean, ?_, ?_⟩
        · rintro result ⟨⟩
          rfl
        · intro h
          cases h
      · have hseen : (indices.take index).length < size := by
          rw [List.length_take]
          omega
        obtain ⟨scratch', hmark, hsame, hnew⟩ := hholds.mark hpow hseen indices[index]
        rw [if_neg hbig, if_neg hbig, hmark, ok_bind, priorLoop_eq _ (by omega), ok_bind,
          List.drop_zero]
        by_cases hmem : indices[index] ∈ indices.take index
        · rw [hsame hmem, decide_eq_true hmem, decide_eq_false (not_not_intro hmem)]
          refine ⟨scratch, _, rfl, rfl, hclean, ?_, ?_⟩
          · rintro result ⟨⟩
            rfl
          · intro h
            cases h
        · obtain ⟨hnext, slot, rfl⟩ := hnew hmem
          rw [decide_eq_true hmem, decide_eq_false hmem, if_neg Bool.false_ne_true]
          show ∃ scratch'' rejected, markLoop size epoch indices elementCount outputCount turns
            (index + 1) (scratch.put slot epoch indices[index]) = _ ∧ _
          have htake : indices.take (index + 1) = indices.take index ++ [indices[index]] := by
            rw [List.take_add_one, hget]
            rfl
          have hclean' : (scratch.put slot epoch indices[index]).Clean := by
            rw [← hepoch]
            exact hclean.put slot _
          obtain ⟨scratch'', rejected, hrun, href, hc, hrej, hall⟩ :=
            @ih (index + 1) (scratch.put slot epoch indices[index]) (by omega) (by omega)
              (by exact hepoch) hclean' (htake ▸ hnext)
          refine ⟨scratch'', rejected, hrun, href, hc, hrej, ?_⟩
          intro hnone i hle hlt target htarget
          rcases Nat.lt_or_eq_of_le hle with h | rfl
          · exact hall hnone i h (by omega) target htarget
          · rw [hget] at htarget
            obtain rfl := Option.some.inj htarget
            exact UInt64.not_le.mp hbig

/-- The writing loop comes to its end when all targets are inside the output. -/
theorem writeTargets_returns {α : Type} {values output : List α}
    (hindices : elementCount.toNat ≤ indices.length) (hvalues : elementCount.toNat ≤ values.length)
    (houtput : outputCount.toNat ≤ output.length)
    (hall : ∀ i, i < elementCount.toNat → ∀ target, indices[i]? = some target →
      target.toUInt64 < outputCount) :
    ∃ output', writeTargets values indices elementCount output = Except.ok output' := by
  rw [writeTargets]
  refine (forRange_returns (fun _ now => now.length = output.length) rfl ?_).imp
    fun output' h => h.1
  intro i now hi hlen
  have hget : indices[i]? = some indices[i] := List.getElem?_eq_getElem (by omega)
  have hvalue : values[i]? = some values[i] := List.getElem?_eq_getElem (by omega)
  have hlt := UInt64.lt_iff_toNat_lt.mp (hall i hi _ hget)
  rw [UInt32.toNat_toUInt64] at hlt
  rw [fetch_of_lt hget, ok_bind, fetch_of_lt hvalue, ok_bind, assign_of_lt (by omega)]
  exact ⟨_, rfl, by rw [List.length_set, hlen]⟩

end Loops

/-! ### The slots of a plan -/

theorem slotsLoop_spec {required : UInt64} (hbound : required.toNat ≤ 2 ^ 32) {turns k : Nat}
    (hk : k ≤ 32) (hturns : 33 ≤ k + turns) {slots : UInt64} (hslots : slots.toNat = 2 ^ k) :
    (∃ j, (slotsLoop required turns slots).toNat = 2 ^ j) ∧
      required.toNat ≤ (slotsLoop required turns slots).toNat := by
  induction turns generalizing k slots with
  | zero => omega
  | succ turns ih =>
      rw [slotsLoop]
      by_cases hsmall : slots < required
      · have hlt := UInt64.lt_iff_toNat_lt.mp hsmall
        have hk' : k < 32 := by
          by_contra hge
          have hpow : 2 ^ 32 ≤ 2 ^ k := Nat.pow_le_pow_right (by decide) (by omega)
          omega
        have hpow : 2 ^ k ≤ 2 ^ 32 := Nat.pow_le_pow_right (by decide) hk
        have hfits : slots.toNat * (2 : UInt64).toNat < 2 ^ 64 := by
          show slots.toNat * 2 < 2 ^ 64
          omega
        rw [if_pos hsmall, if_pos (checkedMul_iff.mpr hfits)]
        apply ih (by omega : k + 1 ≤ 32) (by omega)
        rw [toNat_mul_of_fits hfits, hslots, Nat.pow_succ]
        rfl
      · rw [if_neg hsmall]
        exact ⟨⟨k, hslots⟩, UInt64.le_iff_toNat_le.mp (UInt64.not_lt.mp hsmall)⟩

/-- The table of an accepted plan has a power of two of slots, two for each element at least. -/
theorem scratchSlots_spec {count : UInt64} (hpos : count ≠ 0) (hcount : count ≤ kMaxEncodedCount) :
    (∃ k, (scratchSlots count).toNat = 2 ^ k) ∧ count.toNat * 2 ≤ (scratchSlots count).toNat := by
  have hle : count.toNat ≤ 2 ^ 31 - 1 := UInt64.le_iff_toNat_le.mp hcount
  have hfits : count.toNat * (2 : UInt64).toNat < 2 ^ 64 := by
    show count.toNat * 2 < 2 ^ 64
    omega
  have hmul : checkedMul count 2 = true := checkedMul_iff.mpr hfits
  have hrequired : (count * 2).toNat = count.toNat * 2 := toNat_mul_of_fits hfits
  rw [scratchSlots, if_neg (by rw [hmul]; simp [hpos])]
  have hspec := @slotsLoop_spec (count * 2) (by omega) 65 0 (by omega) (by omega) 1 rfl
  rw [hrequired] at hspec
  exact hspec

/-- What it means that a plan is accepted. -/
theorem planScatter_ok {desc : ScatterDesc} (h : (planScatter desc).ok = true) :
    desc.elementCount ≠ 0 ∧ desc.elementCount ≤ kMaxEncodedCount ∧ desc.outputCount ≠ 0 ∧
      desc.outputCount ≤ kMaxOutputCount ∧
      (planScatter desc).elementCount = desc.elementCount ∧
      (planScatter desc).outputCount = desc.outputCount ∧
      (planScatter desc).scratchSlots = scratchSlots desc.elementCount := by
  rw [planScatter] at h ⊢
  split_ifs at h ⊢ with h1 h2 h3 h4 h5
  · cases h
  · cases h
  · cases h
  · cases h
  · cases h
  · exact ⟨h2, UInt64.not_lt.mp h3, h4, UInt64.not_lt.mp h5, rfl, rfl, rfl⟩

/-! ### One scatter -/

section Scatter

variable {α : Type} {scratch : ScatterScratch} {values output : List α} {indices : List UInt32}
  {elementCount outputCount : UInt64}

/-- **One scatter is the reference scatter**, on a scratch that other scatters have used. -/
theorem executeLinearScatter_eq (hclean : scratch.Clean) (hcount : elementCount ≠ 0)
    (hencoded : elementCount ≤ kMaxEncodedCount) (hout : outputCount ≠ 0)
    (hmax : outputCount ≤ kMaxOutputCount) (hindices : elementCount.toNat ≤ indices.length)
    (hvalues : elementCount.toNat ≤ values.length) (houtput : outputCount.toNat ≤ output.length) :
    ∃ scratch' result output',
      executeLinearScatter scratch values indices output elementCount outputCount
        (scratchSlots elementCount) = Except.ok (scratch', result, output') ∧
      referenceScatter values indices output elementCount outputCount =
        Except.ok (result, output') ∧
      scratch'.Clean ∧ (result.ok = false → output' = output) := by
  obtain ⟨hpow, hslots⟩ := scratchSlots_spec hcount hencoded
  have hpos : 0 < elementCount.toNat :=
    Nat.pos_of_ne_zero fun hz => hcount (UInt64.toNat_inj.mp hz)
  have hsome : scratchSlots elementCount ≠ 0 := by
    intro hz
    rw [hz] at hslots
    have : (0 : UInt64).toNat = 0 := rfl
    omega
  obtain ⟨hstarted, hholds⟩ := hclean.started (scratchSlots elementCount).toNat
  obtain ⟨scratch', rejected, hrun, href, hc, hrej, hall⟩ :=
    @markLoop_eq indices elementCount outputCount _ _ hpow elementCount.toNat 0 _ (by omega)
      (by omega) rfl hstarted hholds
  rw [executeLinearScatter, if_neg hsome, referenceScatter, if_neg hcount,
    if_neg (UInt64.not_lt.mpr hencoded), if_neg hout, if_neg (UInt64.not_lt.mpr hmax), href, ok_bind]
  show ∃ scratch'' result output', (markLoop _ (scratch.started _).epoch indices elementCount
    outputCount _ _ (scratch.started _) >>= _) = _ ∧ _
  rw [hrun, ok_bind]
  cases rejected with
  | some result => exact ⟨scratch', result, output, rfl, rfl, hc, fun _ => rfl⟩
  | none =>
      obtain ⟨output', hwrite⟩ := writeTargets_returns hindices hvalues houtput
        fun i hi => hall rfl i (Nat.zero_le i) (by omega)
      refine ⟨scratch', accepted elementCount outputCount, output', ?_, ?_, hc, ?_⟩
      · show (writeTargets values indices elementCount output >>= _) = _
        rw [hwrite]
        rfl
      · show (writeTargets values indices elementCount output >>= _) = _
        rw [hwrite]
        rfl
      · intro h
        cases h

end Scatter

/-! ### Histories of scatters -/

/-- The lengths of the values and of the output. -/
def ScatterBuffers.lengths : ScatterBuffers → Nat × Nat
  | .u32 values output => (values.length, output.length)
  | .u64 values output => (values.length, output.length)

/-- A scatter whose plan is accepted and whose buffers are as long as the plan says. -/
structure ScatterCall.Ready (call : ScatterCall) : Prop where
  planned : (planScatter call.desc).ok = true
  indices : call.desc.elementCount.toNat ≤ call.indices.length
  values : call.desc.elementCount.toNat ≤ call.buffers.lengths.1
  output : call.desc.outputCount.toNat ≤ call.buffers.lengths.2

/-- One scatter of a history. -/
theorem ScatterCall.Ready.run_eq {call : ScatterCall} (h : call.Ready) {scratch : ScatterScratch}
    (hclean : scratch.Clean) :
    ∃ scratch' result buffers, call.run scratch = Except.ok (scratch', result, buffers) ∧
      call.reference = Except.ok (result, buffers) ∧ scratch'.Clean ∧
      (result.ok = false → buffers = call.buffers) := by
  obtain ⟨hcount, hencoded, hout, hmax, hplanCount, hplanOut, hplanSlots⟩ := planScatter_ok h.planned
  have hvalues := h.values
  have houtput := h.output
  rw [ScatterCall.run, ScatterCall.reference, hplanCount, hplanOut, hplanSlots]
  cases hbuffers : call.buffers with
  | u32 values output =>
      rw [hbuffers] at hvalues houtput
      obtain ⟨scratch', result, output', hrun, href, hc, hsame⟩ :=
        executeLinearScatter_eq hclean hcount hencoded hout hmax h.indices hvalues houtput
      refine ⟨scratch', result, .u32 values output', ?_, ?_, hc, ?_⟩
      · dsimp only
        rw [hrun]
        rfl
      · dsimp only
        rw [href]
        rfl
      · exact fun hno => by rw [hsame hno]
  | u64 values output =>
      rw [hbuffers] at hvalues houtput
      obtain ⟨scratch', result, output', hrun, href, hc, hsame⟩ :=
        executeLinearScatter_eq hclean hcount hencoded hout hmax h.indices hvalues houtput
      refine ⟨scratch', result, .u64 values output', ?_, ?_, hc, ?_⟩
      · dsimp only
        rw [hrun]
        rfl
      · dsimp only
        rw [href]
        rfl
      · exact fun hno => by rw [hsame hno]

theorem runAll_eq_reference {calls : List ScatterCall} (hcalls : ∀ call ∈ calls, call.Ready)
    {scratch : ScatterScratch} (hclean : scratch.Clean) :
    ∃ final results, runAll calls scratch = Except.ok (final, results) ∧
      referenceAll calls = Except.ok results ∧
      List.Forall₂ (fun call done => done.1.ok = false → done.2 = call.buffers) calls results := by
  induction calls generalizing scratch with
  | nil => exact ⟨scratch, [], rfl, rfl, List.Forall₂.nil⟩
  | cons call calls ih =>
      obtain ⟨scratch', result, buffers, hrun, href, hc, hsame⟩ :=
        (hcalls call (List.mem_cons_self ..)).run_eq hclean
      obtain ⟨final, results, hrest, hrests, hkept⟩ :=
        ih (fun other hmem => hcalls other (List.mem_cons_of_mem _ hmem)) hc
      refine ⟨final, (result, buffers) :: results, ?_, ?_, List.Forall₂.cons hsame hkept⟩
      · rw [runAll, hrun, ok_bind]
        dsimp only
        rw [hrest]
        rfl
      · rw [referenceAll, href, ok_bind, hrests]
        rfl

/-- **Over any history of scatters on one scratch, each comes to its end with what the reference
gives**, and a rejected one leaves its output alone. -/
theorem scatterHistory_eq_reference (calls : List ScatterCall)
    (hcalls : ∀ call ∈ calls, call.Ready) :
    ∃ final results, runAll calls {} = Except.ok (final, results) ∧
      referenceAll calls = Except.ok results ∧
      List.Forall₂ (fun call done => done.1.ok = false → done.2 = call.buffers) calls results := by
  apply runAll_eq_reference hcalls
  intro mark hmem
  exact absurd hmem List.not_mem_nil

/-- A scatter that repeats an index, and one that does not after it. -/
theorem scatterHistory_eq_reference_two :
    ∃ final results,
      runAll [⟨⟨.u32, 2, 3⟩, [1, 1], .u32 [5, 6] [0, 0, 0]⟩,
        ⟨⟨.u64, 2, 3⟩, [1, 2], .u64 [5, 6] [0, 0, 0]⟩] {} = Except.ok (final, results) ∧
      referenceAll [⟨⟨.u32, 2, 3⟩, [1, 1], .u32 [5, 6] [0, 0, 0]⟩,
        ⟨⟨.u64, 2, 3⟩, [1, 2], .u64 [5, 6] [0, 0, 0]⟩] = Except.ok results ∧
      List.Forall₂ (fun (call : ScatterCall) (done : ScatterResult × ScatterBuffers) =>
          done.1.ok = false → done.2 = call.buffers)
        [⟨⟨.u32, 2, 3⟩, [1, 1], .u32 [5, 6] [0, 0, 0]⟩,
          ⟨⟨.u64, 2, 3⟩, [1, 2], .u64 [5, 6] [0, 0, 0]⟩] results := by
  apply scatterHistory_eq_reference
  intro call hmem
  rcases List.mem_cons.mp hmem with rfl | hmem
  · exact ⟨by decide, by decide, by decide, by decide⟩
  · obtain rfl := List.mem_singleton.mp hmem
    exact ⟨by decide, by decide, by decide, by decide⟩

end RunD.Scatter
