/-
The canonical handles of a scope do not depend on the numbers the operating
system gives out.

Whatever a table has been through before, a new scope begins with no names.
From then on its answers are those of `Names`, and these are the same for any
two runs of the same shape.
-/
import RunD.HandleProbe

namespace RunD

variable {ε : Type}

/-! ### Runs -/

/-- What the map answers to a use or a close. -/
inductive HandleAnswer where
  | canonical (value : Option UInt64)
  | retired (found : Bool)
  deriving DecidableEq, Repr

/-- The answer of the map for an answer of `Names`. -/
def HandleAnswer.ofName : NameAnswer → HandleAnswer
  | .named name => .canonical (name.map UInt64.ofNat)
  | .closed found => .retired found

/-- A step of a run over several scopes. -/
inductive ScopeStep where
  | beginScope
  | operation (op : NameOp Handle)
  deriving DecidableEq, Repr

namespace HandleMap

def apply (map : HandleMap) : NameOp Handle → Checked ε (HandleAnswer × HandleMap)
  | .use handle => do
      let (canonical, map) ← map.findOrAdmit handle.1
      pure (.canonical canonical, map)
  | .close handle => do
      let (found, map) ← map.retire handle.1
      pure (.retired found, map)

def applyAll : HandleMap → List (NameOp Handle) → Checked ε (List HandleAnswer × HandleMap)
  | map, [] => pure ([], map)
  | map, op :: ops => do
      let (answer, map) ← map.apply op
      let (answers, map) ← applyAll map ops
      pure (answer :: answers, map)

/-- What a table is after the steps of earlier scopes. -/
def history : List ScopeStep → HandleMap → Checked ε HandleMap
  | [], map => pure map
  | .beginScope :: steps, map => history steps map.beginScope
  | .operation op :: steps, map => do
      let (_, map) ← map.apply op
      history steps map

variable {map : HandleMap} {names : Names Handle}

theorem Represents.apply (h : map.Represents names) (op : NameOp Handle) :
    ∃ map' : HandleMap, (map.apply op : Checked ε (HandleAnswer × HandleMap)) =
        Except.ok (.ofName (names.step map.limit.toNat (2 ^ 64) op).1, map') ∧
      map'.Represents (names.step map.limit.toNat (2 ^ 64) op).2 ∧ map'.limit = map.limit := by
  cases op with
  | use handle =>
      obtain ⟨map', hrun, hnext, hlimit⟩ := @Represents.findOrAdmit ε _ _ h handle
      refine ⟨map', ?_, hnext, hlimit⟩
      rw [HandleMap.apply, hrun]
      rfl
  | close handle =>
      obtain ⟨map', hrun, hnext, hlimit⟩ := @Represents.retire ε _ _ h handle
      refine ⟨map', ?_, hnext, hlimit⟩
      rw [HandleMap.apply, hrun]
      rfl

/-- **A run over the table is a run over the names.** -/
theorem Represents.applyAll (h : map.Represents names) (ops : List (NameOp Handle)) :
    ∃ map' : HandleMap, (map.applyAll ops : Checked ε (List HandleAnswer × HandleMap)) =
        Except.ok ((names.run map.limit.toNat (2 ^ 64) ops).1.map .ofName, map') ∧
      map'.Represents (names.run map.limit.toNat (2 ^ 64) ops).2 ∧ map'.limit = map.limit := by
  induction ops generalizing map names with
  | nil => exact ⟨map, rfl, h, rfl⟩
  | cons op ops ih =>
      obtain ⟨map₁, hrun₁, h₁, hlimit₁⟩ := @Represents.apply ε _ _ h op
      obtain ⟨map₂, hrun₂, h₂, hlimit₂⟩ := ih h₁
      rw [hlimit₁] at hrun₂ h₂
      refine ⟨map₂, ?_, h₂, hlimit₂.trans hlimit₁⟩
      rw [HandleMap.applyAll, hrun₁, ok_bind]
      dsimp only
      rw [hrun₂]
      rfl

/-! ### Beginning a scope -/

/-- No scope was begun yet, or the table holds the names of one. -/
structure Ready (map : HandleMap) (limit : UInt32) : Prop where
  sized : map.Sized
  limit_eq : map.limit = limit
  scope : map.epoch = 0 ∨ ∃ names, map.Represents names

/-- A table without a slot of its scope has no names. -/
theorem represents_empty (h : map.Sized) (hepoch : 1 ≤ map.epoch.toNat) (hlive : map.live = 0)
    (hnext : map.next = 1) (hstale : ∀ entry ∈ map.entries, ¬ map.Current entry) :
    map.Represents {} := by
  have hnone : ∀ entry ∈ map.entries, entry.stamp ≠ map.liveStamp := fun entry hentry hlive =>
    hstale entry hentry (h.current_of_live hlive)
  refine ⟨h, hepoch, Names.valid_start, ?_, ?_, Nat.zero_le _, ?_, by decide, ?_, ?_, ?_⟩
  · rw [hlive]
    rfl
  · rw [List.countP_eq_zero.mpr fun entry hentry => by simpa using hnone entry hentry]
    rfl
  · rw [hnext]
    rfl
  · intro i entry hentry hstamp
    exact absurd hstamp (hnone entry (List.mem_of_getElem? hentry))
  · intro i j entry other hentry _ hstamp
    exact absurd hstamp (hnone entry (List.mem_of_getElem? hentry))
  · intro x hx
    exact absurd hx (by simp)

/-- **A new scope begins without names**, also when the count of the scopes starts again. -/
theorem Sized.beginScope (h : map.Sized) :
    map.beginScope.Represents {} ∧ map.beginScope.limit = map.limit := by
  have hmax : maxEpoch.toNat = 2 ^ 31 - 1 := by decide
  rw [HandleMap.beginScope]
  by_cases hwrap : map.epoch = maxEpoch
  · rw [if_pos hwrap]
    have hreplicate : ∀ entry ∈ List.replicate map.entries.length ({} : HandleEntry),
        entry.stamp.toNat = 0 := by
      intro entry hentry
      rw [List.eq_of_mem_replicate hentry]
      rfl
    refine ⟨represents_empty ⟨?_, ?_, ?_, by dsimp only; decide, ?_⟩ (by dsimp only; decide) rfl rfl
      ?_, rfl⟩
    · refine h.size.imp (fun hnil => ?_) fun ⟨k, hk⟩ => ⟨k, ?_⟩
      · rw [hnil]
        rfl
      · rw [← hk]
        exact List.length_replicate
    · intro hne
      dsimp only
      rw [List.length_replicate]
      refine h.mask fun hnil => hne ?_
      rw [hnil]
      rfl
    · dsimp only
      rw [List.length_replicate]
      exact h.limit_le
    · intro entry hentry
      rw [hreplicate entry hentry]
      exact Nat.zero_le _
    · intro entry hentry hcurrent
      rw [Current, hreplicate entry hentry] at hcurrent
      exact absurd (show 0 / 2 = (1 : UInt32).toNat from hcurrent) (by decide)
  · rw [if_neg hwrap]
    have hlt : map.epoch.toNat < 2 ^ 31 - 1 := by
      have := h.epoch_lt
      have hne : map.epoch.toNat ≠ maxEpoch.toNat := fun heq => hwrap (UInt32.toNat_inj.mp heq)
      omega
    have hnext : (map.epoch + 1).toNat = map.epoch.toNat + 1 := by
      rw [UInt32.toNat_add]
      show (map.epoch.toNat + 1) % 2 ^ 32 = _
      omega
    refine ⟨represents_empty ⟨h.size, h.mask, h.limit_le, ?_, ?_⟩ ?_ rfl rfl ?_, rfl⟩
    · dsimp only
      omega
    · intro entry hentry
      have := h.stamps entry hentry
      dsimp only
      omega
    · dsimp only
      omega
    · intro entry hentry hcurrent
      have := h.stamps entry hentry
      rw [Current] at hcurrent
      dsimp only at hcurrent
      omega

theorem Ready.apply {limit : UInt32} (h : map.Ready limit) (op : NameOp Handle) :
    ∃ answer, ∃ map' : HandleMap,
      (map.apply op : Checked ε (HandleAnswer × HandleMap)) = Except.ok (answer, map') ∧
        map'.Ready limit := by
  rcases h.scope with hzero | ⟨names, hnames⟩
  · -- before the first scope nothing is found and nothing is changed
    cases op with
    | use handle =>
        refine ⟨.canonical none, map, ?_, h⟩
        rw [HandleMap.apply, findOrAdmit, if_neg handle.2, if_pos (Or.inl hzero)]
        rfl
    | close handle =>
        refine ⟨.retired false, map, ?_, h⟩
        rw [HandleMap.apply, retire, if_neg handle.2, if_pos (Or.inl hzero)]
        rfl
  · obtain ⟨map', hrun, hnext, hlimit⟩ := @Represents.apply ε _ _ hnames op
    exact ⟨_, map', hrun, hnext.sized, hlimit.trans h.limit_eq, Or.inr ⟨_, hnext⟩⟩

theorem Ready.history {limit : UInt32} (h : map.Ready limit) (steps : List ScopeStep) :
    ∃ map' : HandleMap, (map.history steps : Checked ε HandleMap) = Except.ok map' ∧
      map'.Ready limit := by
  induction steps generalizing map with
  | nil => exact ⟨map, rfl, h⟩
  | cons step steps ih =>
      cases step with
      | beginScope =>
          obtain ⟨hnames, hlimit⟩ := h.sized.beginScope
          exact ih ⟨hnames.sized, hlimit.trans h.limit_eq, Or.inr ⟨_, hnames⟩⟩
      | operation op =>
          obtain ⟨answer, map₁, hrun₁, h₁⟩ := @Ready.apply ε _ _ h op
          obtain ⟨map₂, hrun₂, h₂⟩ := ih h₁
          refine ⟨map₂, ?_, h₂⟩
          rw [HandleMap.history, hrun₁, ok_bind]
          exact hrun₂

/-! ### Configuring a table -/

theorem ready_configure {capacity : UInt32} {allocates : Bool}
    (h : configure capacity allocates = some map) : map.Ready capacity := by
  rw [configure] at h
  by_cases hzero : capacity = 0
  · rw [if_pos hzero] at h
    cases h
    refine ⟨⟨Or.inl rfl, fun hne => absurd rfl hne, Nat.le_refl 0, by decide, ?_⟩, hzero.symm,
      Or.inl rfl⟩
    exact fun entry hentry => absurd hentry (by simp)
  · rw [if_neg hzero] at h
    rcases hgrow : growLoop (capacity.toNat * 2) 65 1 with - | size
    · rw [hgrow] at h
      exact absurd h (by simp)
    · rw [hgrow] at h
      dsimp only at h
      obtain ⟨⟨k, rfl⟩, hle⟩ := growLoop_spec ⟨0, rfl⟩ hgrow
      split_ifs at h
      cases h
      have hlen : (List.replicate (2 ^ k) ({} : HandleEntry)).length = 2 ^ k :=
        List.length_replicate
      refine ⟨⟨Or.inr ⟨k, hlen⟩, fun _ => ?_, ?_, by dsimp only; decide, ?_⟩, rfl, Or.inl rfl⟩
      · show 2 ^ k - 1 = (List.replicate (2 ^ k) _).length - 1
        rw [hlen]
      · show 2 * capacity.toNat ≤ (List.replicate (2 ^ k) _).length
        rw [hlen]
        omega
      · intro entry hentry
        rw [List.eq_of_mem_replicate hentry]
        exact Nat.zero_le _

/-! ### The canonical handles of a scope -/

/-- The handle `physical` is open and has the canonical handle `canonical`. -/
def Live (map : HandleMap) (physical canonical : UInt64) : Prop :=
  ∃ entry ∈ map.entries, entry.stamp = map.liveStamp ∧ entry.physical = physical ∧
    entry.canonical = canonical

/-- The number of handles that are open. -/
def liveCount (map : HandleMap) : Nat := map.entries.countP (·.stamp = map.liveStamp)

theorem Represents.live_iff (h : map.Represents names) {handle : Handle} {canonical : UInt64} :
    map.Live handle.1 canonical ↔ names.nameOf handle = some canonical.toNat := by
  rw [h.valid.nameOf_eq_some]
  constructor
  · rintro ⟨entry, hentry, hlive, hphysical, rfl⟩
    obtain ⟨i, hi⟩ := List.mem_iff_getElem?.mp hentry
    obtain ⟨hne, hmem⟩ := h.named i entry hi hlive
    rwa [show handle = ⟨entry.physical, hne⟩ from Subtype.ext hphysical.symm]
  · intro hmem
    obtain ⟨found, hfound, distance, hreach⟩ := h.reached _ hmem
    refine ⟨_, List.mem_of_getElem? hreach.found, rfl, rfl, ?_⟩
    exact UInt64.toNat_inj.mp hfound

/-- Open handles have different canonical handles. -/
theorem Represents.live_inj (h : map.Represents names) {handle other : Handle}
    {canonical : UInt64} (hlive : map.Live handle.1 canonical)
    (hother : map.Live other.1 canonical) : handle = other := by
  have hmem := h.valid.nameOf_eq_some.mp (h.live_iff.mp hlive)
  have hmem' := h.valid.nameOf_eq_some.mp (h.live_iff.mp hother)
  have hsame := List.inj_on_of_nodup_map h.valid.distinct hmem hmem' rfl
  exact congrArg Prod.fst hsame

theorem Represents.nameOf_of_not_live (h : map.Represents names) {handle : Handle}
    (hnot : ∀ canonical, ¬ map.Live handle.1 canonical) : names.nameOf handle = none := by
  rcases hname : names.nameOf handle with - | name
  · rfl
  · obtain ⟨found, hfound, -⟩ := h.reached _ (h.valid.nameOf_eq_some.mp hname)
    refine absurd (h.live_iff.mpr ?_) (hnot found)
    rw [hname, hfound]

/-- **Two runs of a scope that are the same up to the numbers of the operating system get the same
canonical handles, whatever the tables went through before.  Open handles have different canonical
handles; a handle that is not open gets one above all that were given out, and is refused only when
as many handles are open as may be, or the canonical handles have run out.** -/
theorem canonicalHandles_independent {capacity : UInt32} {allocates : Bool} {table : HandleMap}
    (hconfigured : configure capacity allocates = some table) (before before' : List ScopeStep)
    {ops ops' : List (NameOp Handle)} (hshape : SameShape [] ops ops') :
    ∃ (start start' : HandleMap) (answers : List HandleAnswer) (last last' : HandleMap),
      (table.history before : Checked ε HandleMap) = Except.ok start ∧
      (table.history before' : Checked ε HandleMap) = Except.ok start' ∧
      (start.beginScope.applyAll ops : Checked ε (List HandleAnswer × HandleMap)) =
        Except.ok (answers, last) ∧
      (start'.beginScope.applyAll ops' : Checked ε (List HandleAnswer × HandleMap)) =
        Except.ok (answers, last') ∧
      (∀ (handle other : Handle) (canonical : UInt64), last.Live handle.1 canonical →
        last.Live other.1 canonical → handle = other) ∧
      ∀ handle : Handle, (∀ canonical, ¬ last.Live handle.1 canonical) →
        ∃ (answer : Option UInt64) (next : HandleMap),
          (last.findOrAdmit handle.1 : Checked ε (Option UInt64 × HandleMap)) =
            Except.ok (answer, next) ∧
          (∀ fresh given, answer = some fresh → .canonical (some given) ∈ answers →
            given < fresh) ∧
          (answer = none → capacity.toNat ≤ last.liveCount ∨ last.next = 0) := by
  have hready := ready_configure hconfigured
  obtain ⟨start, hstart, hready₁⟩ := @Ready.history ε _ _ hready before
  obtain ⟨start', hstart', hready₂⟩ := @Ready.history ε _ _ hready before'
  obtain ⟨hnames₁, hlimit₁⟩ := hready₁.sized.beginScope
  obtain ⟨hnames₂, hlimit₂⟩ := hready₂.sized.beginScope
  obtain ⟨last, hrun₁, hlast, hlimit⟩ := @Represents.applyAll ε _ _ hnames₁ ops
  obtain ⟨last', hrun₂, -, -⟩ := @Represents.applyAll ε _ _ hnames₂ ops'
  rw [hlimit₁, hready₁.limit_eq] at hrun₁ hlast hlimit
  rw [hlimit₂, hready₂.limit_eq,
    ← hshape.answers_eq Names.alike_start Names.valid_start] at hrun₂
  refine ⟨start, start', _, last, last', hstart, hstart', hrun₁, hrun₂,
    fun _ _ _ => hlast.live_inj, fun handle hnot => ?_⟩
  obtain ⟨next, hfind, -, -⟩ := @Represents.findOrAdmit ε _ _ hlast handle
  rw [hlimit] at hfind
  refine ⟨_, next, hfind, ?_, ?_⟩
  · intro fresh given hfresh hgiven
    obtain ⟨answer, hanswer, hof⟩ := List.mem_map.mp hgiven
    rcases Names.use_of_new (hlast.nameOf_of_not_live hnot) capacity.toNat (2 ^ 64) with
      ⟨hnew, hbound⟩ | ⟨hnew, -⟩
    · rw [hnew, Option.map_some] at hfresh
      cases hfresh
      rcases answer with (- | name) | found
      · exact absurd hof (by simp [HandleAnswer.ofName])
      · have hlt := Names.valid_start.named_lt capacity.toNat (2 ^ 64) ops hanswer
        have hgiven' : UInt64.ofNat name = given := by simpa [HandleAnswer.ofName] using hof
        rw [← hgiven', UInt64.lt_iff_toNat_lt, UInt64.toNat_ofNat', UInt64.toNat_ofNat',
          Nat.mod_eq_of_lt (by omega), Nat.mod_eq_of_lt hbound]
        exact hlt
      · exact absurd hof (by simp [HandleAnswer.ofName])
    · rw [hnew] at hfresh
      exact absurd hfresh (by simp)
  · intro hnone
    rcases Names.use_of_new (hlast.nameOf_of_not_live hnot) capacity.toNat (2 ^ 64) with
      ⟨hnew, -⟩ | ⟨-, hfull⟩
    · rw [hnew] at hnone
      exact absurd hnone (by simp)
    · rw [liveCount, hlast.count_eq, hlast.next_eq_zero]
      exact hfull

/-- Two runs with different numbers, the second of which gets its number back after a close. -/
theorem canonicalHandles_independent_reopened :
    ∃ (answers : List HandleAnswer) (last last' : HandleMap),
      (({ entries := [{}, {}, {}, {}], mask := 3, limit := 2 } : HandleMap).beginScope.applyAll
          [.use ⟨5, by decide⟩, .close ⟨5, by decide⟩, .use ⟨9, by decide⟩] :
        Checked Unit (List HandleAnswer × HandleMap)) = Except.ok (answers, last) ∧
      (({ entries := [{}, {}, {}, {}], mask := 3, limit := 2 } : HandleMap).beginScope.applyAll
          [.use ⟨7, by decide⟩, .close ⟨7, by decide⟩, .use ⟨7, by decide⟩] :
        Checked Unit (List HandleAnswer × HandleMap)) = Except.ok (answers, last') := by
  have hconfigured : configure 2 true =
      some { entries := [{}, {}, {}, {}], mask := 3, limit := 2 } := by decide
  obtain ⟨start, start', answers, last, last', hstart, hstart', hrun, hrun', -⟩ :=
    @canonicalHandles_independent Unit _ _ _ hconfigured [] []
      [.use ⟨5, by decide⟩, .close ⟨5, by decide⟩, .use ⟨9, by decide⟩]
      [.use ⟨7, by decide⟩, .close ⟨7, by decide⟩, .use ⟨7, by decide⟩]
      (.meet (by simp) (by simp) (.close (by simp) (.meet (by simp) (by simp) .nil)))
  cases hstart
  cases hstart'
  exact ⟨answers, last, last', hrun, hrun'⟩

/-! ### When the canonical handles run out -/

/-- One handle, opened and closed over and over. -/
def reopen (handle : Handle) : Nat → List (NameOp Handle)
  | 0 => []
  | n + 1 => .use handle :: .close handle :: reopen handle n

theorem run_reopen (handle : Handle) (limit : Nat) (hlimit : 0 < limit) {n next : Nat}
    (hnext : next + n ≤ 2 ^ 64) :
    (({ next := next } : Names Handle).run limit (2 ^ 64) (reopen handle n)).2 =
      { next := next + n } := by
  induction n generalizing next with
  | zero => rfl
  | succ n ih =>
      have hroom : ¬ (limit ≤ 0 ∨ 2 ^ 64 ≤ next) := by omega
      have huse : ({ next := next } : Names Handle).use limit (2 ^ 64) handle =
          (some next, { opens := [(handle, next)], next := next + 1 }) := by
        rw [Names.use]
        show (if limit ≤ 0 ∨ 2 ^ 64 ≤ next then _ else _) = _
        rw [if_neg hroom]
      have hclose : ({ opens := [(handle, next)], next := next + 1 } : Names Handle).close handle =
          (true, { next := next + 1 }) := by
        simp [Names.close, Names.nameOf]
      rw [reopen, Names.run, Names.step, huse]
      dsimp only [Prod.map]
      rw [id, Names.run, Names.step, hclose]
      dsimp only [Prod.map]
      rw [id, ih (by omega), Nat.add_assoc, Nat.add_comm 1]

/-- After as many handles as there are words, the next one is refused though none is open. -/
theorem refused_without_live :
    ¬ ∀ (capacity : UInt32) (allocates : Bool) (table : HandleMap) (ops : List (NameOp Handle))
      (handle : Handle), configure capacity allocates = some table →
      ∃ (answers : List HandleAnswer) (last next : HandleMap) (answer : Option UInt64),
        (table.beginScope.applyAll ops : Checked Unit (List HandleAnswer × HandleMap)) =
          Except.ok (answers, last) ∧
        (last.findOrAdmit handle.1 : Checked Unit (Option UInt64 × HandleMap)) =
          Except.ok (answer, next) ∧
        (answer = none → capacity.toNat ≤ last.liveCount) := by
  intro hall
  let handle : Handle := ⟨1, by decide⟩
  let table : HandleMap := { entries := [{}, {}], mask := 1, limit := 1 }
  have hconfigured : configure 1 true = some table := by decide
  have hready := ready_configure hconfigured
  obtain ⟨hnames, hlimit⟩ := hready.sized.beginScope
  obtain ⟨last, hrun, hlast, hlimit'⟩ :=
    @Represents.applyAll Unit _ _ hnames (reopen handle (2 ^ 64 - 1))
  rw [hlimit, hready.limit_eq, show (1 : UInt32).toNat = 1 from rfl,
    run_reopen handle 1 (by decide) (by decide)] at hlast
  obtain ⟨next, hfind, -⟩ := @Represents.findOrAdmit Unit _ _ hlast handle
  obtain ⟨answers', last', next', answer', hrun', hfind', hfull⟩ :=
    hall 1 true table (reopen handle (2 ^ 64 - 1)) handle hconfigured
  rw [hrun] at hrun'
  obtain ⟨-, rfl⟩ := Prod.mk.inj (Except.ok.inj hrun')
  have hnone : (({ next := 1 + (2 ^ 64 - 1) } : Names Handle).use last.limit.toNat (2 ^ 64)
      handle).1 = none := by
    rcases @Names.use_of_new Handle _ { next := 1 + (2 ^ 64 - 1) } handle rfl last.limit.toNat (2 ^ 64)
      with ⟨-, hbound⟩ | ⟨hnone, -⟩
    · exact absurd hbound (by decide)
    · exact hnone
  rw [hfind, hnone] at hfind'
  obtain ⟨rfl, -⟩ := Prod.mk.inj (Except.ok.inj hfind')
  have hcount := hfull rfl
  rw [liveCount, hlast.count_eq] at hcount
  exact absurd hcount (by decide)

end HandleMap

end RunD
