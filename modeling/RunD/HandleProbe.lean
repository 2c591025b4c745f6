/-
What the table of handles holds, and that its operations are those of
`Names`.

`Represents map names` says that the live slots are exactly the names, and
that every live slot can be reached: on the way from the home of its handle to
the slot there is no slot of an earlier scope.  A search therefore finds a
handle that is open, and a search that ends at such a slot, or goes around the
whole table, has shown that the handle is not open.
-/
import RunD.CanonicalNames
import RunD.HandleMap

namespace RunD

/-- A number of the operating system; zero stands for no handle. -/
abbrev Handle := { physical : UInt64 // physical ≠ 0 }

namespace HandleMap

variable {ε : Type} {map : HandleMap}

/-! ### The invariant -/

/-- The shape of the table: none at all, or a power of two with twice the room for the handles
that may be open, and no stamp from a later scope. -/
structure Sized (map : HandleMap) : Prop where
  size : map.entries = [] ∨ ∃ k, map.entries.length = 2 ^ k
  mask : map.entries ≠ [] → map.mask = map.entries.length - 1
  limit_le : 2 * map.limit.toNat ≤ map.entries.length
  epoch_lt : map.epoch.toNat < 2 ^ 31
  stamps : ∀ entry ∈ map.entries, entry.stamp.toNat / 2 ≤ map.epoch.toNat

/-- The slot is one of this scope. -/
def Current (map : HandleMap) (entry : HandleEntry) : Prop :=
  entry.stamp.toNat / 2 = map.epoch.toNat

/-- The slot that is met after `distance` others. -/
def slotAt (map : HandleMap) (physical : UInt64) (distance : Nat) : Nat :=
  (map.home physical + distance) % map.entries.length

/-- Behind `distance` slots of this scope stands the slot of `physical`. -/
structure Reaches (map : HandleMap) (physical canonical : UInt64) (distance : Nat) : Prop where
  lt : distance < map.entries.length
  found : map.entries[map.slotAt physical distance]? =
    some { physical := physical, canonical := canonical, stamp := map.liveStamp }
  passed : ∀ j < distance, ∃ entry, map.entries[map.slotAt physical j]? = some entry ∧
    map.Current entry

/-- The table holds exactly the names. -/
structure Represents (map : HandleMap) (names : Names Handle) : Prop where
  sized : map.Sized
  epoch_pos : 1 ≤ map.epoch.toNat
  valid : names.Valid
  live_eq : map.live.toNat = names.opens.length
  count_eq : map.entries.countP (·.stamp = map.liveStamp) = names.opens.length
  live_le : names.opens.length ≤ map.limit.toNat
  next_eq : map.next.toNat = names.next % 2 ^ 64
  next_le : names.next ≤ 2 ^ 64
  named : ∀ (i : Nat) (entry : HandleEntry), map.entries[i]? = some entry →
    entry.stamp = map.liveStamp →
    ∃ h : entry.physical ≠ 0, (⟨entry.physical, h⟩, entry.canonical.toNat) ∈ names.opens
  unique : ∀ (i j : Nat) (entry other : HandleEntry), map.entries[i]? = some entry →
    map.entries[j]? = some other → entry.stamp = map.liveStamp → other.stamp = map.liveStamp →
    entry.physical = other.physical → i = j
  reached : ∀ x ∈ names.opens, ∃ canonical : UInt64, canonical.toNat = x.2 ∧
    ∃ distance, map.Reaches x.1.1 canonical distance

/-! ### Stamps -/

theorem Sized.toNat_liveStamp (h : map.Sized) : map.liveStamp.toNat = 2 * map.epoch.toNat + 1 := by
  have := h.epoch_lt
  rw [liveStamp, UInt32.toNat_add, UInt32.toNat_mul]
  show (map.epoch.toNat * 2 % 2 ^ 32 + 1) % 2 ^ 32 = _
  omega

theorem Sized.toNat_retiredStamp (h : map.Sized) :
    map.retiredStamp.toNat = 2 * map.epoch.toNat := by
  have := h.epoch_lt
  rw [retiredStamp, UInt32.toNat_mul]
  show map.epoch.toNat * 2 % 2 ^ 32 = _
  omega

theorem stale_iff {entry : HandleEntry} :
    entry.stamp >>> 1 ≠ map.epoch ↔ ¬ map.Current entry := by
  rw [ne_eq, ← UInt32.toNat_inj, UInt32.toNat_shiftRight, Nat.shiftRight_eq_div_pow]
  rfl

theorem Sized.current_of_live (h : map.Sized) {entry : HandleEntry}
    (hlive : entry.stamp = map.liveStamp) : map.Current entry := by
  rw [Current, hlive, h.toNat_liveStamp]
  omega

theorem Sized.current_of_retired (h : map.Sized) {entry : HandleEntry}
    (hretired : entry.stamp = map.retiredStamp) : map.Current entry := by
  rw [Current, hretired, h.toNat_retiredStamp]
  omega

theorem Sized.live_or_retired (h : map.Sized) {entry : HandleEntry}
    (hcurrent : map.Current entry) :
    entry.stamp = map.liveStamp ∨ entry.stamp = map.retiredStamp := by
  rw [← UInt32.toNat_inj, ← UInt32.toNat_inj, h.toNat_liveStamp, h.toNat_retiredStamp]
  unfold Current at hcurrent
  omega

theorem Sized.live_ne_retired (h : map.Sized) : map.liveStamp ≠ map.retiredStamp := by
  rw [ne_eq, ← UInt32.toNat_inj, h.toNat_liveStamp, h.toNat_retiredStamp]
  omega

/-! ### Slots -/

theorem Sized.pos (_h : map.Sized) (hne : map.entries ≠ []) : 0 < map.entries.length :=
  List.length_pos_iff.mpr hne

/-- Masking a number is taking the remainder. -/
theorem Sized.and_mask (h : map.Sized) (hne : map.entries ≠ []) (n : Nat) :
    n &&& map.mask = n % map.entries.length :=
  RunD.and_mask (h.size.resolve_left hne) (h.mask hne) n

theorem Sized.home_lt (h : map.Sized) (hne : map.entries ≠ []) (physical : UInt64) :
    map.home physical < map.entries.length := by
  rw [home, h.and_mask hne]
  exact Nat.mod_lt _ (h.pos hne)

theorem Sized.slotAt_lt (h : map.Sized) (hne : map.entries ≠ []) (physical : UInt64) (j : Nat) :
    map.slotAt physical j < map.entries.length := Nat.mod_lt _ (h.pos hne)

theorem Sized.slotAt_zero (h : map.Sized) (hne : map.entries ≠ []) (physical : UInt64) :
    map.home physical = map.slotAt physical 0 := by
  rw [slotAt, Nat.add_zero, Nat.mod_eq_of_lt (h.home_lt hne physical)]

/-- The next slot on the way. -/
theorem Sized.slotAt_succ (h : map.Sized) (hne : map.entries ≠ []) (physical : UInt64) (j : Nat) :
    (map.slotAt physical j + 1) &&& map.mask = map.slotAt physical (j + 1) := by
  rw [h.and_mask hne, slotAt, slotAt, Nat.mod_add_mod, Nat.add_assoc]

theorem Sized.exists_slotAt (h : map.Sized) (hne : map.entries ≠ []) (physical : UInt64)
    {i : Nat} (hi : i < map.entries.length) :
    ∃ j < map.entries.length, map.slotAt physical j = i :=
  exists_probe (h.home_lt hne physical) hi

theorem Sized.entry_at (h : map.Sized) (hne : map.entries ≠ []) (physical : UInt64) (j : Nat) :
    ∃ entry, map.entries[map.slotAt physical j]? = some entry :=
  ⟨_, List.getElem?_eq_getElem (h.slotAt_lt hne physical j)⟩

/-! ### Searching -/

theorem findLoop_step {physical : UInt64} {slot : Nat} {entry : HandleEntry}
    (hentry : map.entries[slot]? = some entry) (turns retired : Nat) :
    (map.findLoop physical (turns + 1) slot retired : Checked ε (Option UInt64 × HandleMap)) =
      if entry.stamp = map.liveStamp ∧ entry.physical = physical then
        pure (some entry.canonical, map)
      else if entry.stamp = map.retiredStamp then
        map.findLoop physical turns ((slot + 1) &&& map.mask)
          (if retired = map.entries.length then slot else retired)
      else if entry.stamp >>> 1 ≠ map.epoch then
        map.admitHandle (if retired = map.entries.length then slot else retired) physical
      else map.findLoop physical turns ((slot + 1) &&& map.mask) retired := by
  rw [findLoop, fetch_of_lt hentry, ok_bind]

/-- A search meets every slot up to the one of an open handle, and stops there. -/
theorem Represents.findLoop_open {names : Names Handle} (h : map.Represents names)
    (hne : map.entries ≠ []) {physical canonical : UInt64} {distance : Nat}
    (hreach : map.Reaches physical canonical distance) {turns t : Nat} (ht : t ≤ distance)
    (hturns : turns + t = map.entries.length) (retired : Nat) :
    (map.findLoop physical turns (map.slotAt physical t) retired :
      Checked ε (Option UInt64 × HandleMap)) = Except.ok (some canonical, map) := by
  have hlt := hreach.lt
  induction turns generalizing t retired with
  | zero => omega
  | succ turns ih =>
      rcases Nat.eq_or_lt_of_le ht with rfl | hbefore
      · rw [findLoop_step hreach.found, if_pos ⟨rfl, rfl⟩]
        rfl
      · obtain ⟨entry, hentry, hcurrent⟩ := hreach.passed t hbefore
        -- the handle has one slot only, and this is not it
        have hother : ¬ (entry.stamp = map.liveStamp ∧ entry.physical = physical) := by
          rintro ⟨hlive, hphysical⟩
          have hslot := h.unique _ _ _ _ hentry hreach.found hlive rfl hphysical
          have := probe_inj (by omega) hlt hslot
          omega
        rw [findLoop_step hentry, if_neg hother, h.sized.slotAt_succ hne]
        by_cases hretired : entry.stamp = map.retiredStamp
        · rw [if_pos hretired]
          exact ih (by omega) (by omega) _
        · rw [if_neg hretired, if_neg (stale_iff.not.mpr (not_not_intro hcurrent))]
          exact ih (by omega) (by omega) _

/-- A slot that a new handle may take. -/
structure Vacant (map : HandleMap) (physical : UInt64) (slot distance : Nat) : Prop where
  lt : distance < map.entries.length
  slot_eq : slot = map.slotAt physical distance
  free : ∃ entry, map.entries[slot]? = some entry ∧ entry.stamp ≠ map.liveStamp
  passed : ∀ j < distance, ∃ entry, map.entries[map.slotAt physical j]? = some entry ∧
    map.Current entry

/-- Not every slot is live. -/
theorem Represents.exists_not_live {names : Names Handle} (h : map.Represents names)
    (hne : map.entries ≠ []) : ∃ entry ∈ map.entries, entry.stamp ≠ map.liveStamp := by
  by_contra hall
  have hevery : ∀ entry ∈ map.entries, decide (entry.stamp = map.liveStamp) = true := by
    intro entry hentry
    by_contra hnot
    exact hall ⟨entry, hentry, by simpa using hnot⟩
  have hcount := List.countP_eq_length.mpr hevery
  have := h.count_eq
  have := h.live_le
  have := h.sized.limit_le
  have := h.sized.pos hne
  omega

/-- What the search remembers of the `t` slots it has passed. -/
def Remembers (map : HandleMap) (physical : UInt64) (t retired : Nat) : Prop :=
  (retired = map.entries.length ∧ ∀ j < t, ∃ entry,
      map.entries[map.slotAt physical j]? = some entry ∧ entry.stamp = map.liveStamp) ∨
    retired ≠ map.entries.length ∧ ∃ distance < t, map.Vacant physical retired distance

/-- A search for a handle that is not open ends with its admission, in a slot it can be found
in. -/
theorem Represents.findLoop_new {names : Names Handle} (h : map.Represents names)
    (hne : map.entries ≠ []) {physical : UInt64}
    (hnew : ∀ (i : Nat) (entry : HandleEntry), map.entries[i]? = some entry →
      ¬ (entry.stamp = map.liveStamp ∧ entry.physical = physical)) {turns t retired : Nat}
    (hturns : turns + t = map.entries.length)
    (hpassed : ∀ j < t, ∃ entry, map.entries[map.slotAt physical j]? = some entry ∧
      map.Current entry) (hretired : map.Remembers physical t retired) :
    ∃ slot distance, map.Vacant physical slot distance ∧
      (map.findLoop physical turns (map.slotAt physical t) retired :
        Checked ε (Option UInt64 × HandleMap)) = map.admitHandle slot physical := by
  induction turns generalizing t retired with
  | zero =>
      obtain rfl : t = map.entries.length := by omega
      rcases hretired with ⟨-, hlive⟩ | ⟨hsome, distance, -, hvacant⟩
      · -- the whole table was live
        obtain ⟨entry, hmem, hnot⟩ := h.exists_not_live hne
        obtain ⟨i, hi⟩ := List.mem_iff_getElem?.mp hmem
        obtain ⟨j, hj, rfl⟩ :=
          h.sized.exists_slotAt hne physical (List.getElem?_eq_some_iff.mp hi).1
        obtain ⟨other, hother, hstamp⟩ := hlive j hj
        rw [hother] at hi
        cases hi
        exact absurd hstamp hnot
      · refine ⟨retired, distance, hvacant, ?_⟩
        rw [findLoop, if_pos hsome]
  | succ turns ih =>
      obtain ⟨entry, hentry⟩ := h.sized.entry_at hne physical t
      have hhere : entry.stamp ≠ map.liveStamp →
          map.Vacant physical (map.slotAt physical t) t := fun hnot =>
        ⟨by omega, rfl, ⟨entry, hentry, hnot⟩, hpassed⟩
      have hslot : map.slotAt physical t ≠ map.entries.length :=
        (h.sized.slotAt_lt hne physical t).ne
      rw [findLoop_step hentry, if_neg (hnew _ entry hentry), h.sized.slotAt_succ hne]
      by_cases hstamp : entry.stamp = map.retiredStamp
      · have hnot : entry.stamp ≠ map.liveStamp := by
          rw [hstamp]
          exact h.sized.live_ne_retired.symm
        have hcurrent := h.sized.current_of_retired hstamp
        rw [if_pos hstamp]
        refine ih (by omega) ?_ ?_
        · exact Nat.forall_lt_succ_right.mpr ⟨hpassed, entry, hentry, hcurrent⟩
        · rcases hretired with ⟨rfl, -⟩ | ⟨hsome, distance, hlt, hvacant⟩
          · rw [if_pos rfl]
            exact Or.inr ⟨hslot, t, Nat.lt_succ_self t, hhere hnot⟩
          · rw [if_neg hsome]
            exact Or.inr ⟨hsome, distance, Nat.lt_succ_of_lt hlt, hvacant⟩
      · rw [if_neg hstamp]
        by_cases hstale : entry.stamp >>> 1 ≠ map.epoch
        · rw [if_pos hstale]
          have hnot : entry.stamp ≠ map.liveStamp := fun hlive =>
            stale_iff.mp hstale (h.sized.current_of_live hlive)
          rcases hretired with ⟨rfl, -⟩ | ⟨hsome, distance, hlt, hvacant⟩
          · rw [if_pos rfl]
            exact ⟨_, t, hhere hnot, rfl⟩
          · rw [if_neg hsome]
            exact ⟨retired, distance, hvacant, rfl⟩
        · rw [if_neg hstale]
          have hcurrent : map.Current entry := not_not.mp (stale_iff.not.mp hstale)
          have hlive := (h.sized.live_or_retired hcurrent).resolve_right hstamp
          refine ih (by omega) ?_ ?_
          · exact Nat.forall_lt_succ_right.mpr ⟨hpassed, entry, hentry, hcurrent⟩
          · rcases hretired with ⟨rfl, hall⟩ | ⟨hsome, distance, hlt, hvacant⟩
            · exact Or.inl ⟨rfl, Nat.forall_lt_succ_right.mpr ⟨hall, entry, hentry, hlive⟩⟩
            · exact Or.inr ⟨hsome, distance, Nat.lt_succ_of_lt hlt, hvacant⟩

/-! ### Changing a slot -/

/-- One slot of this scope is overwritten by another one of this scope. -/
def put (map : HandleMap) (slot : Nat) (entry : HandleEntry) (live : UInt32) (next : UInt64) :
    HandleMap :=
  { map with entries := map.entries.set slot entry, live := live, next := next }

variable {slot : Nat} {entry : HandleEntry} {live : UInt32} {next : UInt64}

theorem slotAt_put (physical : UInt64) (j : Nat) :
    (map.put slot entry live next).slotAt physical j = map.slotAt physical j := by
  show _ % (map.entries.set slot entry).length = _
  rw [List.length_set]
  rfl

theorem Sized.put (h : map.Sized) (hcurrent : map.Current entry) :
    (map.put slot entry live next).Sized := by
  have hlen : (map.entries.set slot entry).length = map.entries.length := List.length_set
  refine ⟨?_, ?_, ?_, h.epoch_lt, ?_⟩
  · show map.entries.set slot entry = [] ∨ ∃ k, (map.entries.set slot entry).length = 2 ^ k
    rw [List.set_eq_nil_iff, hlen]
    exact h.size
  · show map.entries.set slot entry ≠ [] → map.mask = (map.entries.set slot entry).length - 1
    rw [ne_eq, List.set_eq_nil_iff, hlen]
    exact h.mask
  · show 2 * map.limit.toNat ≤ (map.entries.set slot entry).length
    rw [hlen]
    exact h.limit_le
  · intro other hother
    rcases List.mem_or_eq_of_mem_set hother with hold | rfl
    · exact h.stamps other hold
    · exact hcurrent.le

/-- A slot of this scope stays one. -/
theorem current_put (hcurrent : map.Current entry) {i : Nat}
    (hi : ∃ old, map.entries[i]? = some old ∧ map.Current old) :
    ∃ new, (map.put slot entry live next).entries[i]? = some new ∧
      (map.put slot entry live next).Current new := by
  obtain ⟨old, hold, hcurrent'⟩ := hi
  have hlt := (List.getElem?_eq_some_iff.mp hold).1
  by_cases hslot : slot = i
  · subst hslot
    exact ⟨entry, List.getElem?_set_self hlt, hcurrent⟩
  · refine ⟨old, ?_, hcurrent'⟩
    show (map.entries.set slot entry)[i]? = some old
    rw [List.getElem?_set_ne hslot]
    exact hold

/-- The other handles are still reached. -/
theorem Reaches.put {physical canonical : UInt64} {distance : Nat}
    (h : map.Reaches physical canonical distance) (hcurrent : map.Current entry)
    (hslot : slot ≠ map.slotAt physical distance) :
    (map.put slot entry live next).Reaches physical canonical distance := by
  refine ⟨?_, ?_, fun j hj => ?_⟩
  · show distance < (map.entries.set slot entry).length
    rw [List.length_set]
    exact h.lt
  · rw [slotAt_put]
    show (map.entries.set slot entry)[_]? = _
    rw [List.getElem?_set_ne hslot]
    exact h.found
  · rw [slotAt_put]
    exact current_put hcurrent (h.passed j hj)

/-! ### The operations -/

theorem Represents.next_eq_zero {names : Names Handle} (h : map.Represents names) :
    map.next = 0 ↔ 2 ^ 64 ≤ names.next := by
  have := h.valid.next_pos
  have := h.next_le
  rw [← UInt64.toNat_inj, h.next_eq, UInt64.toNat_zero]
  omega

/-- A live slot belongs to a handle with a name. -/
theorem Represents.not_live {names : Names Handle} (h : map.Represents names) {handle : Handle}
    (hnew : names.nameOf handle = none) (i : Nat) (entry : HandleEntry)
    (hentry : map.entries[i]? = some entry) :
    ¬ (entry.stamp = map.liveStamp ∧ entry.physical = handle.1) := by
  rintro ⟨hlive, hphysical⟩
  obtain ⟨hne, hmem⟩ := h.named i entry hentry hlive
  refine Names.nameOf_eq_none.mp hnew (List.mem_map.mpr ⟨_, hmem, ?_⟩)
  exact Subtype.ext hphysical

/-- The table with the slot of a new handle. -/
theorem Represents.put_new {names : Names Handle} (h : map.Represents names) {handle : Handle}
    (hnew : names.nameOf handle = none) {distance : Nat}
    (hvacant : map.Vacant handle.1 slot distance)
    (hroom : names.opens.length < map.limit.toNat) (hnext : names.next < 2 ^ 64) :
    (map.put slot { physical := handle.1, canonical := map.next, stamp := map.liveStamp }
      (map.live + 1) (map.next + 1)).Represents
      { opens := (handle, map.next.toNat) :: names.opens, next := map.next.toNat + 1 } := by
  obtain ⟨vacant, hvacantAt, hfree⟩ := hvacant.free
  have hlt := (List.getElem?_eq_some_iff.mp hvacantAt).1
  have hsame : map.next.toNat = names.next := by
    rw [h.next_eq, Nat.mod_eq_of_lt hnext]
  have hcurrent : map.Current
      { physical := handle.1, canonical := map.next, stamp := map.liveStamp } :=
    h.sized.current_of_live rfl
  -- what stands in a slot now: the new entry, or what stood there before
  have hcases : ∀ (i : Nat) (entry : HandleEntry), (map.entries.set slot
      { physical := handle.1, canonical := map.next, stamp := map.liveStamp })[i]? = some entry →
      i = slot ∧ entry =
          { physical := handle.1, canonical := map.next, stamp := map.liveStamp } ∨
        i ≠ slot ∧ map.entries[i]? = some entry := by
    intro i entry hentry
    by_cases hi : slot = i
    · subst hi
      rw [List.getElem?_set_self hlt] at hentry
      exact Or.inl ⟨rfl, (Option.some.inj hentry).symm⟩
    · rw [List.getElem?_set_ne hi] at hentry
      exact Or.inr ⟨Ne.symm hi, hentry⟩
  have hvalid := h.valid.use map.limit.toNat (2 ^ 64) handle
  rw [Names.use, hnew] at hvalid
  simp only [if_neg (show ¬ (map.limit.toNat ≤ names.opens.length ∨ 2 ^ 64 ≤ names.next) by omega)]
    at hvalid
  rw [hsame]
  refine ⟨h.sized.put hcurrent, h.epoch_pos, hvalid, ?_, ?_, ?_, ?_, ?_, ?_, ?_, ?_⟩
  · show (map.live + 1).toNat = names.opens.length + 1
    have := map.limit.toNat_lt
    have := h.live_eq
    rw [UInt32.toNat_add]
    show (map.live.toNat + 1) % 2 ^ 32 = _
    omega
  · show (map.entries.set slot _).countP (·.stamp = map.liveStamp) = names.opens.length + 1
    have hold : map.entries[slot] = vacant := (List.getElem?_eq_some_iff.mp hvacantAt).2
    rw [List.countP_set hlt, hold, h.count_eq]
    simp [hfree]
  · show names.opens.length + 1 ≤ map.limit.toNat
    omega
  · show (map.next + 1).toNat = (names.next + 1) % 2 ^ 64
    rw [UInt64.toNat_add, hsame]
    rfl
  · show names.next + 1 ≤ 2 ^ 64
    omega
  · intro i entry hentry hlive
    rcases hcases i entry hentry with ⟨-, rfl⟩ | ⟨-, hold⟩
    · refine ⟨handle.2, ?_⟩
      dsimp only
      rw [hsame]
      exact List.mem_cons_self
    · obtain ⟨hne, hmem⟩ := h.named i entry hold hlive
      exact ⟨hne, List.mem_cons_of_mem _ hmem⟩
  · intro i j entry other hentry hother hlive hlive' hphysical
    rcases hcases i entry hentry with ⟨rfl, rfl⟩ | ⟨-, hold⟩
    · rcases hcases j other hother with ⟨rfl, -⟩ | ⟨-, hold'⟩
      · rfl
      · exact absurd ⟨hlive', hphysical.symm⟩ (h.not_live hnew j other hold')
    · rcases hcases j other hother with ⟨rfl, rfl⟩ | ⟨-, hold'⟩
      · exact absurd ⟨hlive, hphysical⟩ (h.not_live hnew i entry hold)
      · exact h.unique i j entry other hold hold' hlive hlive' hphysical
  · intro x hx
    rcases List.mem_cons.mp hx with rfl | hx
    · refine ⟨map.next, hsame, distance, ?_, ?_, fun j hj => ?_⟩
      · show distance < (map.entries.set slot _).length
        rw [List.length_set]
        exact hvacant.lt
      · rw [slotAt_put, ← hvacant.slot_eq]
        exact List.getElem?_set_self hlt
      · rw [slotAt_put]
        exact current_put hcurrent (hvacant.passed j hj)
    · obtain ⟨canonical, hcanonical, d, hreach⟩ := h.reached x hx
      refine ⟨canonical, hcanonical, d, hreach.put hcurrent ?_⟩
      rintro rfl
      rw [hreach.found] at hvacantAt
      cases hvacantAt
      exact hfree rfl

/-- A new handle takes a vacant slot and the next name, unless there is no room. -/
theorem Represents.admitHandle {names : Names Handle} (h : map.Represents names) {handle : Handle}
    (hnew : names.nameOf handle = none) {distance : Nat}
    (hvacant : map.Vacant handle.1 slot distance) :
    ∃ map' : HandleMap, (map.admitHandle slot handle.1 : Checked ε (Option UInt64 × HandleMap)) =
        Except.ok ((names.use map.limit.toNat (2 ^ 64) handle).1.map UInt64.ofNat, map') ∧
      map'.Represents (names.use map.limit.toNat (2 ^ 64) handle).2 ∧ map'.limit = map.limit := by
  have hfull : map.live ≥ map.limit ∨ map.next = 0 ↔
      map.limit.toNat ≤ names.opens.length ∨ 2 ^ 64 ≤ names.next := by
    rw [h.next_eq_zero, ge_iff_le, UInt32.le_iff_toNat_le, h.live_eq]
  rw [HandleMap.admitHandle, Names.use, hnew]
  by_cases hroom : map.limit.toNat ≤ names.opens.length ∨ 2 ^ 64 ≤ names.next
  · simp only [if_pos hroom, if_pos (hfull.mpr hroom)]
    exact ⟨map, rfl, h, rfl⟩
  · simp only [if_neg hroom, if_neg (hfull.not.mpr hroom)]
    obtain ⟨vacant, hentry, hfree⟩ := hvacant.free
    have hlt := (List.getElem?_eq_some_iff.mp hentry).1
    have hnext : map.next.toNat = names.next := by
      rw [h.next_eq, Nat.mod_eq_of_lt (by omega)]
    rw [assign_of_lt hlt]
    refine ⟨map.put slot { physical := handle.1, canonical := map.next, stamp := map.liveStamp }
      (map.live + 1) (map.next + 1), ?_, ?_, rfl⟩
    · rw [ok_bind, Option.map_some, ← hnext, UInt64.ofNat_toNat]
      rfl
    · rw [← hnext]
      exact h.put_new hnew hvacant (by omega) (by omega)

/-- **`find_or_admit` is a use.** -/
theorem Represents.findOrAdmit {names : Names Handle} (h : map.Represents names)
    (handle : Handle) :
    ∃ map' : HandleMap, (map.findOrAdmit handle.1 : Checked ε (Option UInt64 × HandleMap)) =
        Except.ok ((names.use map.limit.toNat (2 ^ 64) handle).1.map UInt64.ofNat, map') ∧
      map'.Represents (names.use map.limit.toNat (2 ^ 64) handle).2 ∧ map'.limit = map.limit := by
  have hepoch : map.epoch ≠ 0 := by
    intro hzero
    have := h.epoch_pos
    rw [hzero] at this
    exact absurd this (by decide)
  rw [HandleMap.findOrAdmit, if_neg handle.2]
  by_cases hnil : map.entries = []
  · -- without a table nothing is ever admitted
    have hlimit : map.limit.toNat = 0 := by
      have := h.sized.limit_le
      rw [hnil, List.length_nil] at this
      omega
    have hopens : names.opens = [] := by
      have := h.live_le
      exact List.length_eq_zero_iff.mp (by omega)
    have hname : names.nameOf handle = none := by
      rw [Names.nameOf_eq_none, hopens]
      simp
    rw [if_pos (Or.inr hnil), Names.use, hname, hlimit]
    simp only [Nat.zero_le, true_or, if_true]
    exact ⟨map, rfl, h, rfl⟩
  rw [if_neg (by simp [hepoch, hnil]), h.sized.slotAt_zero hnil]
  rcases hname : names.nameOf handle with - | name
  · obtain ⟨slot, distance, hvacant, hloop⟩ := @Represents.findLoop_new ε _ _ h hnil _
      (h.not_live hname) map.entries.length 0 map.entries.length rfl
      (fun j hj => absurd hj (Nat.not_lt_zero j))
      (Or.inl ⟨rfl, fun j hj => absurd hj (Nat.not_lt_zero j)⟩)
    rw [hloop]
    exact h.admitHandle hname hvacant
  · obtain ⟨canonical, hcanonical, distance, hreach⟩ :=
      h.reached _ (h.valid.nameOf_eq_some.mp hname)
    have hloop := @Represents.findLoop_open ε _ _ h hnil _ _ _ hreach map.entries.length 0
      (Nat.zero_le _) rfl map.entries.length
    dsimp only at hcanonical hloop
    rw [hloop, Names.use, hname]
    refine ⟨map, ?_, h, rfl⟩
    rw [Option.map_some, ← hcanonical, UInt64.ofNat_toNat]

/-! ### Closing -/

theorem retireLoop_step {physical : UInt64} {slot : Nat} {entry : HandleEntry}
    (hentry : map.entries[slot]? = some entry) (turns : Nat) :
    (map.retireLoop physical (turns + 1) slot : Checked ε (Bool × HandleMap)) =
      if entry.stamp >>> 1 ≠ map.epoch then pure (false, map)
      else if entry.stamp = map.liveStamp ∧ entry.physical = physical then do
        let entries ← assign map.entries slot { entry with stamp := map.retiredStamp }
        pure (true, { map with entries := entries, live := map.live - 1 })
      else map.retireLoop physical turns ((slot + 1) &&& map.mask) := by
  rw [retireLoop, fetch_of_lt hentry, ok_bind]

theorem Represents.retireLoop_open {names : Names Handle} (h : map.Represents names)
    (hne : map.entries ≠ []) {physical canonical : UInt64} {distance : Nat}
    (hreach : map.Reaches physical canonical distance) {turns t : Nat} (ht : t ≤ distance)
    (hturns : turns + t = map.entries.length) :
    (map.retireLoop physical turns (map.slotAt physical t) : Checked ε (Bool × HandleMap)) =
      Except.ok (true, map.put (map.slotAt physical distance)
        { physical := physical, canonical := canonical, stamp := map.retiredStamp }
        (map.live - 1) map.next) := by
  have hlt := hreach.lt
  induction turns generalizing t with
  | zero => omega
  | succ turns ih =>
      rcases Nat.eq_or_lt_of_le ht with rfl | hbefore
      · have hcurrent : map.Current
            { physical := physical, canonical := canonical, stamp := map.liveStamp } :=
          h.sized.current_of_live rfl
        rw [retireLoop_step hreach.found, if_neg (stale_iff.not.mpr (not_not_intro hcurrent)),
          if_pos ⟨rfl, rfl⟩, assign_of_lt (h.sized.slotAt_lt hne physical t)]
        rfl
      · obtain ⟨entry, hentry, hcurrent⟩ := hreach.passed t hbefore
        have hother : ¬ (entry.stamp = map.liveStamp ∧ entry.physical = physical) := by
          rintro ⟨hlive, hphysical⟩
          have hslot := h.unique _ _ _ _ hentry hreach.found hlive rfl hphysical
          have := probe_inj (by omega) hlt hslot
          omega
        rw [retireLoop_step hentry, if_neg (stale_iff.not.mpr (not_not_intro hcurrent)),
          if_neg hother, h.sized.slotAt_succ hne]
        exact ih (by omega) (by omega)

/-- A handle that is not open is not closed. -/
theorem Represents.retireLoop_new {names : Names Handle} (h : map.Represents names)
    (hne : map.entries ≠ []) {physical : UInt64}
    (hnew : ∀ (i : Nat) (entry : HandleEntry), map.entries[i]? = some entry →
      ¬ (entry.stamp = map.liveStamp ∧ entry.physical = physical)) (turns t : Nat) :
    (map.retireLoop physical turns (map.slotAt physical t) : Checked ε (Bool × HandleMap)) =
      Except.ok (false, map) := by
  induction turns generalizing t with
  | zero => rfl
  | succ turns ih =>
      obtain ⟨entry, hentry⟩ := h.sized.entry_at hne physical t
      rw [retireLoop_step hentry, if_neg (hnew _ entry hentry), h.sized.slotAt_succ hne]
      split_ifs
      · rfl
      · exact ih (t + 1)

/-- The table with the slot of a closed handle. -/
theorem Represents.put_retired {names : Names Handle} (h : map.Represents names)
    {handle : Handle} {name : Nat} (hname : names.nameOf handle = some name) {canonical : UInt64}
    {distance : Nat} (hreach : map.Reaches handle.1 canonical distance) :
    (map.put (map.slotAt handle.1 distance)
      { physical := handle.1, canonical := canonical, stamp := map.retiredStamp }
      (map.live - 1) map.next).Represents
      { names with opens := names.opens.eraseP fun entry => entry.1 = handle } := by
  have hmem := h.valid.nameOf_eq_some.mp hname
  have hlt : map.slotAt handle.1 distance < map.entries.length :=
    (List.getElem?_eq_some_iff.mp hreach.found).1
  have hcurrent : map.Current
      { physical := handle.1, canonical := canonical, stamp := map.retiredStamp } :=
    h.sized.current_of_retired rfl
  have hlen : (names.opens.eraseP fun entry => entry.1 = handle).length =
      names.opens.length - 1 :=
    List.length_eraseP_of_mem hmem (decide_eq_true rfl)
  have hpos : 0 < names.opens.length := List.length_pos_of_mem hmem
  have hvalid := h.valid.close handle
  rw [Names.close, hname] at hvalid
  -- a live slot is one that was live before, of another handle
  have hcases : ∀ (i : Nat) (entry : HandleEntry), (map.entries.set (map.slotAt handle.1 distance)
      { physical := handle.1, canonical := canonical, stamp := map.retiredStamp })[i]? =
        some entry → entry.stamp = map.liveStamp →
      map.entries[i]? = some entry ∧ entry.physical ≠ handle.1 := by
    intro i entry hentry hlive
    by_cases hi : map.slotAt handle.1 distance = i
    · subst hi
      rw [List.getElem?_set_self hlt] at hentry
      cases hentry
      exact absurd hlive.symm h.sized.live_ne_retired
    · rw [List.getElem?_set_ne hi] at hentry
      refine ⟨hentry, fun hphysical => hi ?_⟩
      exact h.unique _ _ _ _ hreach.found hentry rfl hlive hphysical.symm
  refine ⟨h.sized.put hcurrent, h.epoch_pos, hvalid, ?_, ?_, ?_, h.next_eq, h.next_le, ?_, ?_, ?_⟩
  · show (map.live - 1).toNat = _
    have hlive := h.live_eq
    have hone : (1 : UInt32) ≤ map.live := by
      rw [UInt32.le_iff_toNat_le, hlive]
      exact hpos
    rw [UInt32.toNat_sub_of_le _ _ hone, hlen, hlive]
    rfl
  · show (map.entries.set _ _).countP (·.stamp = map.liveStamp) = _
    have hold := (List.getElem?_eq_some_iff.mp hreach.found).2
    rw [List.countP_set hlt, hold, h.count_eq, hlen]
    simp [h.sized.live_ne_retired.symm]
  · show _ ≤ map.limit.toNat
    rw [hlen]
    have := h.live_le
    omega
  · intro i entry hentry hlive
    obtain ⟨hold, hother⟩ := hcases i entry hentry hlive
    obtain ⟨hne, hnamed⟩ := h.named i entry hold hlive
    refine ⟨hne, h.valid.mem_eraseP.mpr ⟨hnamed, fun heq => hother ?_⟩⟩
    exact congrArg Subtype.val heq
  · intro i j entry other hentry hother hlive hlive' hphysical
    exact h.unique i j entry other (hcases i entry hentry hlive).1
      (hcases j other hother hlive').1 hlive hlive' hphysical
  · intro x hx
    obtain ⟨hmem', hne⟩ := h.valid.mem_eraseP.mp hx
    obtain ⟨canonical', hcanonical, d, hreach'⟩ := h.reached x hmem'
    refine ⟨canonical', hcanonical, d, hreach'.put hcurrent fun hslot => hne ?_⟩
    have hfound := hreach'.found
    rw [← hslot, hreach.found] at hfound
    exact Subtype.ext (congrArg HandleEntry.physical (Option.some.inj hfound)).symm

/-- **`retire` is a close.** -/
theorem Represents.retire {names : Names Handle} (h : map.Represents names) (handle : Handle) :
    ∃ map' : HandleMap, (map.retire handle.1 : Checked ε (Bool × HandleMap)) =
        Except.ok ((names.close handle).1, map') ∧
      map'.Represents (names.close handle).2 ∧ map'.limit = map.limit := by
  have hepoch : map.epoch ≠ 0 := by
    intro hzero
    have := h.epoch_pos
    rw [hzero] at this
    exact absurd this (by decide)
  rw [HandleMap.retire, if_neg handle.2, Names.close]
  by_cases hnil : map.entries = []
  · have hname : names.nameOf handle = none := by
      rcases hname : names.nameOf handle with - | name
      · rfl
      · obtain ⟨canonical, -, distance, hreach⟩ :=
          h.reached _ (h.valid.nameOf_eq_some.mp hname)
        have := hreach.lt
        rw [hnil] at this
        exact absurd this (Nat.not_lt_zero _)
    rw [if_pos (Or.inr hnil), hname]
    exact ⟨map, rfl, h, rfl⟩
  rw [if_neg (by simp [hepoch, hnil]), h.sized.slotAt_zero hnil]
  rcases hname : names.nameOf handle with - | name
  · rw [h.retireLoop_new hnil (h.not_live hname)]
    exact ⟨map, rfl, h, rfl⟩
  · obtain ⟨canonical, -, distance, hreach⟩ := h.reached _ (h.valid.nameOf_eq_some.mp hname)
    rw [h.retireLoop_open hnil hreach (Nat.zero_le _) rfl]
    exact ⟨_, rfl, h.put_retired hname hreach, rfl⟩

end HandleMap

end RunD
