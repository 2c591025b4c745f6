/-
The dispatch plan of a compute map: how many tiles a dispatch takes at a time,
how much staging memory that needs, and how many dispatches there are.

`planComputeDispatch` guards every sum and product it forms.  `WindowFits` says
what a window of some number of tiles needs, in natural numbers; a request is
admitted exactly when a window of one tile fits, and the plan then takes the
largest window that does.
-/
import RunD.CheckedWord
import RunD.ComputeModel
import Mathlib.Order.Bounds.Basic

namespace RunD

/-! ### Phases, maps, capabilities and plans -/

/-- `ComputeApi`; `invalid` stands for a byte without an enumerator. -/
inductive ComputeApi where
  | invalid
  | metal
  | vulkan
  | cpu
  deriving DecidableEq, Repr

def computeApiValid (api : ComputeApi) : Bool := api == .metal || api == .vulkan || api == .cpu

def computeScalarValid (scalar : ComputeScalar) : Bool := scalar == .lane32 || scalar == .lane64

/-- `TilePhaseOrder`. -/
inductive TilePhaseOrder where
  | none
  | tileIndexAscending
  deriving DecidableEq, Repr

structure TilePhaseDescription where
  phaseId : UInt64 := 0
  tileCount : UInt64 := 0
  order : TilePhaseOrder := .tileIndexAscending
  deriving DecidableEq, Repr

structure ComputeMap where
  opHashHi : UInt64 := 0
  opHashLo : UInt64 := 0
  api : ComputeApi := .metal
  scalar : ComputeScalar := .lane32
  domain : ComputeDomain := .fixed
  fixedFormat : ComputeFixedFormat := {}
  inputBufferCount : UInt64 := 0
  outputBufferCount : UInt64 := 1
  inputBytesPerTile : UInt64 := 0
  outputBytesPerTile : UInt64 := 0
  paramBytes : UInt64 := 0
  metadataBytesPerTile : UInt64 := 0
  deriving DecidableEq, Repr

/-- `ComputeCaps`, with what the planner reads of it. -/
structure ComputeCaps where
  api : ComputeApi := .metal
  stagingBytes : UInt64 := 0
  maxWindowTiles : UInt64 := 0
  ok : Bool := false
  deriving DecidableEq, Repr

structure ComputeLimit where
  stagingBytes : UInt64 := 0
  maxWindowTiles : UInt64 := 0
  deriving DecidableEq, Repr

structure ComputeDispatchPlan where
  bytesPerTile : UInt64 := 0
  stagingBytes : UInt64 := 0
  dispatchWindowTiles : UInt64 := 0
  dispatchCount : UInt64 := 0
  ok : Bool := false
  reason : String := "compute_plan_invalid"
  deriving DecidableEq, Repr

/-- `ComputePlan`; the fields the source copies from the map are kept together as the map. -/
structure ComputePlan where
  phaseId : UInt64 := 0
  tileCount : UInt64 := 0
  map : ComputeMap := {}
  bytesPerTile : UInt64 := 0
  stagingBytes : UInt64 := 0
  dispatchWindowTiles : UInt64 := 0
  dispatchCount : UInt64 := 0
  fixedAuthoritative : Bool := false
  ok : Bool := false
  reason : String := "compute_plan_invalid"
  deriving DecidableEq, Repr

/-! ### The shape of a plan -/

def computePlanBytesValid (plan : ComputePlan) : Bool :=
  let map := plan.map
  checkedAdd map.inputBytesPerTile map.outputBytesPerTile &&
    checkedAdd (map.inputBytesPerTile + map.outputBytesPerTile) map.metadataBytesPerTile &&
    map.inputBytesPerTile + map.outputBytesPerTile + map.metadataBytesPerTile ==
      plan.bytesPerTile &&
    checkedMul plan.bytesPerTile plan.dispatchWindowTiles &&
    checkedAdd (plan.bytesPerTile * plan.dispatchWindowTiles) map.paramBytes &&
    plan.bytesPerTile * plan.dispatchWindowTiles + map.paramBytes == plan.stagingBytes

def computePlanShapeValid (plan : ComputePlan) : Bool :=
  plan.ok && plan.fixedAuthoritative && (plan.map.opHashHi != 0 || plan.map.opHashLo != 0) &&
    computeApiValid plan.map.api && computeScalarValid plan.map.scalar && plan.tileCount != 0 &&
    plan.dispatchWindowTiles != 0 && plan.dispatchWindowTiles ≤ plan.tileCount &&
    plan.dispatchCount == checkedCeil plan.tileCount plan.dispatchWindowTiles &&
    plan.bytesPerTile != 0 && plan.stagingBytes != 0 && computePlanBytesValid plan

/-! ### The planner -/

def min4 (a b c d : UInt64) : UInt64 :=
  let ab := if a < b then a else b
  let cd := if c < d then c else d
  if ab < cd then ab else cd

/-- `ValidateTilePhaseDescription(phase).ok`. -/
def validateTilePhaseDescription (phase : TilePhaseDescription) : Bool :=
  phase.phaseId != 0 && phase.tileCount != 0 && phase.order == .tileIndexAscending

def rejectComputeDispatch (bytesPerTile stagingBytes : UInt64) (reason : String) :
    ComputeDispatchPlan :=
  { bytesPerTile := bytesPerTile, stagingBytes := stagingBytes, reason := reason }

/-- The part of `PlanComputeDispatch` after the size of a tile is known. -/
def planWindow (phase : TilePhaseDescription) (map : ComputeMap) (caps : ComputeCaps)
    (limit : ComputeLimit) (bytesPerTile : UInt64) : ComputeDispatchPlan :=
  if bytesPerTile = 0 then rejectComputeDispatch 0 0 "compute_workset_zero"
  else if caps.maxWindowTiles = 0 ∨ limit.maxWindowTiles = 0 then
    rejectComputeDispatch bytesPerTile 0 "compute_window_zero"
  else if checkedAdd bytesPerTile map.paramBytes = false then
    rejectComputeDispatch bytesPerTile 0 "compute_dispatch_overflow"
  else
    let oneTileStaging := bytesPerTile + map.paramBytes
    if caps.stagingBytes < oneTileStaging ∨ limit.stagingBytes < oneTileStaging then
      rejectComputeDispatch bytesPerTile oneTileStaging "compute_staging_insufficient"
    else
      let stagingLimit :=
        if caps.stagingBytes < limit.stagingBytes then caps.stagingBytes else limit.stagingBytes
      let stagingTiles := (stagingLimit - map.paramBytes) / bytesPerTile
      let window := min4 caps.maxWindowTiles limit.maxWindowTiles phase.tileCount stagingTiles
      if window = 0 then
        rejectComputeDispatch bytesPerTile oneTileStaging "compute_staging_insufficient"
      else if checkedMul bytesPerTile window = false then
        rejectComputeDispatch bytesPerTile 0 "compute_dispatch_overflow"
      else if checkedAdd (bytesPerTile * window) map.paramBytes = false then
        rejectComputeDispatch bytesPerTile (bytesPerTile * window) "compute_dispatch_overflow"
      else
        let dispatchStaging := bytesPerTile * window + map.paramBytes
        if caps.stagingBytes < dispatchStaging ∨ limit.stagingBytes < dispatchStaging then
          rejectComputeDispatch bytesPerTile dispatchStaging "compute_staging_insufficient"
        else
          { bytesPerTile := bytesPerTile
            stagingBytes := dispatchStaging
            dispatchWindowTiles := window
            dispatchCount := checkedCeil phase.tileCount window
            ok := true
            reason := "ok" }

def planComputeDispatch (phase : TilePhaseDescription) (map : ComputeMap) (caps : ComputeCaps)
    (limit : ComputeLimit) : ComputeDispatchPlan :=
  if validateTilePhaseDescription phase = false then
    rejectComputeDispatch 0 0 "compute_phase_invalid"
  else if caps.ok = false then rejectComputeDispatch 0 0 "compute_caps_invalid"
  else if map.opHashHi = 0 ∧ map.opHashLo = 0 then rejectComputeDispatch 0 0 "compute_op_invalid"
  else if computeScalarValid map.scalar = false then
    rejectComputeDispatch 0 0 "compute_scalar_unsupported"
  else if computeApiValid map.api = false ∨ computeApiValid caps.api = false then
    rejectComputeDispatch 0 0 "compute_api_unsupported"
  else if map.api ≠ caps.api then rejectComputeDispatch 0 0 "compute_backend_mismatch"
  else if checkedAdd map.inputBytesPerTile map.outputBytesPerTile = false then
    rejectComputeDispatch map.inputBytesPerTile 0 "compute_workset_overflow"
  else
    let moved := map.inputBytesPerTile + map.outputBytesPerTile
    if checkedAdd moved map.metadataBytesPerTile = false then
      rejectComputeDispatch moved 0 "compute_workset_overflow"
    else planWindow phase map caps limit (moved + map.metadataBytesPerTile)

def planCompute (phase : TilePhaseDescription) (map : ComputeMap) (caps : ComputeCaps)
    (limit : ComputeLimit) : ComputePlan :=
  let dispatch := planComputeDispatch phase map caps limit
  if dispatch.ok = false then
    -- `RejectCompute`
    { phaseId := phase.phaseId, tileCount := phase.tileCount, map := map
      bytesPerTile := dispatch.bytesPerTile, stagingBytes := dispatch.stagingBytes
      reason := dispatch.reason }
  else
    { phaseId := phase.phaseId, tileCount := phase.tileCount, map := map
      bytesPerTile := dispatch.bytesPerTile, stagingBytes := dispatch.stagingBytes
      dispatchWindowTiles := dispatch.dispatchWindowTiles
      dispatchCount := dispatch.dispatchCount
      fixedAuthoritative := true, ok := true, reason := "ok" }

/-! ### What a window needs -/

section Request

variable (phase : TilePhaseDescription) (map : ComputeMap) (caps : ComputeCaps)
  (limit : ComputeLimit)

/-- The bytes of one tile. -/
def tileBytes : Nat :=
  map.inputBytesPerTile.toNat + map.outputBytesPerTile.toNat + map.metadataBytesPerTile.toNat

/-- The bytes a window of `tiles` tiles stages. -/
def windowBytes (tiles : Nat) : Nat := tileBytes map * tiles + map.paramBytes.toNat

/-- A window of `tiles` tiles is within every count and every memory limit. -/
def WindowFits (tiles : Nat) : Prop :=
  tiles ≤ caps.maxWindowTiles.toNat ∧ tiles ≤ limit.maxWindowTiles.toNat ∧
    tiles ≤ phase.tileCount.toNat ∧ windowBytes map tiles ≤ caps.stagingBytes.toNat ∧
    windowBytes map tiles ≤ limit.stagingBytes.toNat

/-- The request names a phase, an operation, a lane and one backend, and its tiles have bytes. -/
def RequestValid : Prop :=
  validateTilePhaseDescription phase = true ∧ caps.ok = true ∧
    ¬ (map.opHashHi = 0 ∧ map.opHashLo = 0) ∧ computeScalarValid map.scalar = true ∧
    computeApiValid map.api = true ∧ map.api = caps.api ∧ 0 < tileBytes map

end Request

variable {phase : TilePhaseDescription} {map : ComputeMap} {caps : ComputeCaps}
  {limit : ComputeLimit}

theorem min4_toNat (a b c d : UInt64) :
    (min4 a b c d).toNat = min (min a.toNat b.toNat) (min c.toNat d.toNat) := by
  have hpair : ∀ x y : UInt64, (if x < y then x else y).toNat = min x.toNat y.toNat := by
    intro x y
    by_cases h : x < y
    · rw [if_pos h, min_eq_left (UInt64.lt_iff_toNat_lt.mp h).le]
    · rw [if_neg h, min_eq_right (not_lt.mp fun hlt => h (UInt64.lt_iff_toNat_lt.mpr hlt))]
  rw [min4, hpair, hpair, hpair]

/-- The window the planner takes. -/
def chosenWindow (phase : TilePhaseDescription) (map : ComputeMap) (caps : ComputeCaps)
    (limit : ComputeLimit) : Nat :=
  min (min caps.maxWindowTiles.toNat limit.maxWindowTiles.toNat)
    (min phase.tileCount.toNat
      ((min caps.stagingBytes.toNat limit.stagingBytes.toNat - map.paramBytes.toNat) /
        tileBytes map))

/-- Below the staging limit the bytes of a window are bounded by its tiles. -/
theorem windowBytes_le_iff {bound tiles : Nat} (hbytes : 0 < tileBytes map)
    (hparam : map.paramBytes.toNat ≤ bound) :
    windowBytes map tiles ≤ bound ↔
      tiles ≤ (bound - map.paramBytes.toNat) / tileBytes map := by
  rw [Nat.le_div_iff_mul_le hbytes, Nat.mul_comm, windowBytes]
  omega

/-- The chosen window fits, and every window that fits is at most as large. -/
theorem isGreatest_chosenWindow (hbytes : 0 < tileBytes map)
    (hone : WindowFits phase map caps limit 1) :
    IsGreatest {tiles | WindowFits phase map caps limit tiles}
      (chosenWindow phase map caps limit) := by
  obtain ⟨-, -, -, hcaps, hlimit⟩ := hone
  have hparam : map.paramBytes.toNat ≤ min caps.stagingBytes.toNat limit.stagingBytes.toNat := by
    rw [windowBytes] at hcaps hlimit
    exact le_min (by omega) (by omega)
  have hiff : ∀ tiles, WindowFits phase map caps limit tiles ↔
      tiles ≤ chosenWindow phase map caps limit := by
    intro tiles
    rw [chosenWindow, le_min_iff, le_min_iff, le_min_iff,
      ← windowBytes_le_iff hbytes hparam, le_min_iff, WindowFits]
    simp only [and_assoc]
  constructor
  · exact (hiff _).mpr le_rfl
  · intro tiles htiles
    exact (hiff tiles).mp htiles

/-! ### The planner takes the largest window -/

theorem toNat_pos_iff {x : UInt64} : 0 < x.toNat ↔ x ≠ 0 := by
  rw [Nat.pos_iff_ne_zero, ne_eq, ne_eq, not_iff_not, ← UInt64.toNat_inj]
  rfl

@[simp] theorem rejectComputeDispatch_ok (bytesPerTile stagingBytes : UInt64) (reason : String) :
    (rejectComputeDispatch bytesPerTile stagingBytes reason).ok = false := rfl

/-- Where a check stands before a plan that is good, the check was passed. -/
theorem passed_of_ok {failed : Prop} [Decidable failed] {bytesPerTile stagingBytes : UInt64}
    {reason : String} {plan : ComputeDispatchPlan}
    (hok : (if failed then rejectComputeDispatch bytesPerTile stagingBytes reason
      else plan).ok = true) : ¬ failed ∧ plan.ok = true := by
  by_cases hfailed : failed
  · rw [if_pos hfailed, rejectComputeDispatch_ok] at hok
    exact absurd hok Bool.false_ne_true
  · rw [if_neg hfailed] at hok
    exact ⟨hfailed, hok⟩

/-- `planWindow` answers with a plan only when a window of one tile fits. -/
theorem WindowFits.of_planWindow {bytesPerTile : UInt64}
    (hbytes : bytesPerTile.toNat = tileBytes map) (htiles : phase.tileCount ≠ 0)
    (hok : (planWindow phase map caps limit bytesPerTile).ok = true) :
    0 < tileBytes map ∧ WindowFits phase map caps limit 1 := by
  rw [planWindow] at hok
  obtain ⟨hzero, hok⟩ := passed_of_ok hok
  obtain ⟨hcounts, hok⟩ := passed_of_ok hok
  obtain ⟨hadd, hok⟩ := passed_of_ok hok
  obtain ⟨hone, -⟩ := passed_of_ok hok
  -- the checks that were passed are the five bounds of a window of one tile
  obtain ⟨hcaps, hlimit⟩ := not_or.mp hcounts
  obtain ⟨hstaged, hstaged'⟩ := not_or.mp hone
  have hsum : (bytesPerTile + map.paramBytes).toNat = windowBytes map 1 := by
    rw [toNat_add_of_fits (checkedAdd_iff.mp (Bool.not_eq_false _ ▸ hadd)), windowBytes,
      Nat.mul_one, hbytes]
  rw [UInt64.lt_iff_toNat_lt, not_lt, hsum] at hstaged hstaged'
  refine ⟨hbytes ▸ toNat_pos_iff.mpr hzero, ?_⟩
  exact ⟨toNat_pos_iff.mpr hcaps, toNat_pos_iff.mpr hlimit, toNat_pos_iff.mpr htiles, hstaged,
    hstaged'⟩

/-- When a window of one tile fits, the plan takes the chosen window. -/
theorem planWindow_of_fits {bytesPerTile : UInt64} (hbytes : bytesPerTile.toNat = tileBytes map)
    (hpos : 0 < tileBytes map) (hone : WindowFits phase map caps limit 1) :
    ∃ window : UInt64, window.toNat = chosenWindow phase map caps limit ∧
      planWindow phase map caps limit bytesPerTile =
        { bytesPerTile := bytesPerTile
          stagingBytes := bytesPerTile * window + map.paramBytes
          dispatchWindowTiles := window
          dispatchCount := checkedCeil phase.tileCount window
          ok := true
          reason := "ok" } := by
  obtain ⟨hfits, hmax⟩ := isGreatest_chosenWindow hpos hone
  have hone' : 1 ≤ chosenWindow phase map caps limit := hmax hone
  obtain ⟨hcaps, hlimit, -, hstaged, hstaged'⟩ := hone
  have hbound := caps.stagingBytes.toNat_lt
  have hone_bytes : windowBytes map 1 = bytesPerTile.toNat + map.paramBytes.toNat := by
    rw [windowBytes, Nat.mul_one, hbytes]
  have hfit : bytesPerTile.toNat + map.paramBytes.toNat < 2 ^ 64 := by omega
  have hsum : (bytesPerTile + map.paramBytes).toNat = windowBytes map 1 := by
    rw [toNat_add_of_fits hfit, hone_bytes]
  -- the smaller staging limit, the tiles it holds, and the window
  let stagingLimit :=
    if caps.stagingBytes < limit.stagingBytes then caps.stagingBytes else limit.stagingBytes
  have hlim : stagingLimit.toNat = min caps.stagingBytes.toNat limit.stagingBytes.toNat := by
    by_cases h : caps.stagingBytes < limit.stagingBytes
    · simp only [stagingLimit, if_pos h]
      rw [min_eq_left (UInt64.lt_iff_toNat_lt.mp h).le]
    · simp only [stagingLimit, if_neg h]
      rw [min_eq_right (not_lt.mp fun hlt => h (UInt64.lt_iff_toNat_lt.mpr hlt))]
  let window := min4 caps.maxWindowTiles limit.maxWindowTiles phase.tileCount
    ((stagingLimit - map.paramBytes) / bytesPerTile)
  have hwindow : window.toNat = chosenWindow phase map caps limit := by
    have hparam : map.paramBytes ≤ stagingLimit := by
      rw [UInt64.le_iff_toNat_le, hlim]
      exact le_min (by omega) (by omega)
    simp only [window]
    rw [min4_toNat, UInt64.toNat_div, UInt64.toNat_sub_of_le _ _ hparam, hlim, hbytes,
      chosenWindow]
  obtain ⟨-, -, -, hwide, hwide'⟩ := hfits
  rw [← hwindow, windowBytes, ← hbytes] at hwide hwide'
  have hmul : bytesPerTile.toNat * window.toNat < 2 ^ 64 := by omega
  have hadd : (bytesPerTile * window).toNat + map.paramBytes.toNat < 2 ^ 64 := by
    rw [toNat_mul_of_fits hmul]
    omega
  have hstaging : (bytesPerTile * window + map.paramBytes).toNat =
      bytesPerTile.toNat * window.toNat + map.paramBytes.toNat := by
    rw [toNat_add_of_fits hadd, toNat_mul_of_fits hmul]
  have hlarge : ¬ (caps.stagingBytes < bytesPerTile * window + map.paramBytes ∨
      limit.stagingBytes < bytesPerTile * window + map.paramBytes) := by
    rw [UInt64.lt_iff_toNat_lt, UInt64.lt_iff_toNat_lt, hstaging, not_or, not_lt, not_lt]
    exact ⟨hwide, hwide'⟩
  refine ⟨window, hwindow, ?_⟩
  rw [planWindow, if_neg (toNat_pos_iff.mp (hbytes ▸ hpos)),
    if_neg (not_or.mpr ⟨toNat_pos_iff.mp hcaps, toNat_pos_iff.mp hlimit⟩),
    if_neg (by rw [checkedAdd_iff.mpr hfit]; decide)]
  dsimp only
  rw [if_neg (by
      simp only [UInt64.lt_iff_toNat_lt, hsum, not_or, not_lt]
      exact ⟨hstaged, hstaged'⟩)]
  show (if window = 0 then _ else _) = _
  rw [if_neg (toNat_pos_iff.mp (hwindow ▸ hone')),
    if_neg (by rw [checkedMul_iff.mpr hmul]; decide),
    if_neg (by rw [checkedAdd_iff.mpr hadd]; decide),
    if_neg hlarge]

/-- The two guarded sums give the bytes of a tile. -/
theorem tileBytes_of_guards
    (hmoved : checkedAdd map.inputBytesPerTile map.outputBytesPerTile = true)
    (htile : checkedAdd (map.inputBytesPerTile + map.outputBytesPerTile)
      map.metadataBytesPerTile = true) :
    (map.inputBytesPerTile + map.outputBytesPerTile + map.metadataBytesPerTile).toNat =
      tileBytes map := by
  rw [toNat_add_of_fits (checkedAdd_iff.mp htile), toNat_add_of_fits (checkedAdd_iff.mp hmoved),
    tileBytes]

/-- Only a valid request with a window of one tile gets a plan. -/
theorem RequestValid.of_planComputeDispatch
    (hok : (planComputeDispatch phase map caps limit).ok = true) :
    RequestValid phase map caps ∧ WindowFits phase map caps limit 1 := by
  rw [planComputeDispatch] at hok
  obtain ⟨hphase, hok⟩ := passed_of_ok hok
  obtain ⟨hcaps, hok⟩ := passed_of_ok hok
  obtain ⟨hop, hok⟩ := passed_of_ok hok
  obtain ⟨hscalar, hok⟩ := passed_of_ok hok
  obtain ⟨hapi, hok⟩ := passed_of_ok hok
  obtain ⟨hbackend, hok⟩ := passed_of_ok hok
  obtain ⟨hmoved, hok⟩ := passed_of_ok hok
  obtain ⟨htile, hok⟩ := passed_of_ok hok
  rw [Bool.not_eq_false] at hphase hcaps hscalar hmoved htile
  obtain ⟨hmapApi, -⟩ := not_or.mp hapi
  have htiles : phase.tileCount ≠ 0 := by
    rw [validateTilePhaseDescription] at hphase
    simp only [Bool.and_eq_true, bne_iff_ne] at hphase
    exact hphase.1.2
  obtain ⟨hpos, hfits⟩ := WindowFits.of_planWindow (tileBytes_of_guards hmoved htile) htiles hok
  exact ⟨⟨hphase, hcaps, hop, hscalar, Bool.not_eq_false _ ▸ hmapApi, not_not.mp hbackend, hpos⟩,
    hfits⟩

/-- A valid request with a window of one tile gets the plan of the chosen window. -/
theorem planComputeDispatch_of_fits (hvalid : RequestValid phase map caps)
    (hone : WindowFits phase map caps limit 1) :
    ∃ bytesPerTile window : UInt64, bytesPerTile.toNat = tileBytes map ∧
      checkedAdd map.inputBytesPerTile map.outputBytesPerTile = true ∧
      checkedAdd (map.inputBytesPerTile + map.outputBytesPerTile)
        map.metadataBytesPerTile = true ∧
      bytesPerTile = map.inputBytesPerTile + map.outputBytesPerTile + map.metadataBytesPerTile ∧
      window.toNat = chosenWindow phase map caps limit ∧
      planComputeDispatch phase map caps limit =
        { bytesPerTile := bytesPerTile
          stagingBytes := bytesPerTile * window + map.paramBytes
          dispatchWindowTiles := window
          dispatchCount := checkedCeil phase.tileCount window
          ok := true
          reason := "ok" } := by
  obtain ⟨hphase, hcaps, hop, hscalar, hapi, hbackend, hpos⟩ := hvalid
  have hbound := caps.stagingBytes.toNat_lt
  have hstaged : windowBytes map 1 ≤ caps.stagingBytes.toNat := hone.2.2.2.1
  rw [windowBytes, tileBytes] at hstaged
  have hmoved : checkedAdd map.inputBytesPerTile map.outputBytesPerTile = true :=
    checkedAdd_iff.mpr (by omega)
  have htile : checkedAdd (map.inputBytesPerTile + map.outputBytesPerTile)
      map.metadataBytesPerTile = true := by
    rw [checkedAdd_iff, toNat_add_of_fits (checkedAdd_iff.mp hmoved)]
    omega
  have hbytes := tileBytes_of_guards hmoved htile
  obtain ⟨window, hwindow, hplan⟩ := planWindow_of_fits hbytes hpos hone
  refine ⟨_, window, hbytes, hmoved, htile, rfl, hwindow, ?_⟩
  rw [← hplan, planComputeDispatch, hphase, hcaps, hscalar, hapi, ← hbackend, hapi, hmoved]
  simp [hop, htile]

/-! ### Plans -/

/-- The tiles of the window numbered `k`. -/
def InWindow (plan : ComputePlan) (k tile : Nat) : Prop :=
  k * plan.dispatchWindowTiles.toNat ≤ tile ∧
    tile < min ((k + 1) * plan.dispatchWindowTiles.toNat) plan.tileCount.toNat

/-- The plan of a valid request, with all its sizes in natural numbers. -/
theorem planCompute_of_fits (hvalid : RequestValid phase map caps)
    (hone : WindowFits phase map caps limit 1) :
    (planCompute phase map caps limit).ok = true ∧
      computePlanShapeValid (planCompute phase map caps limit) = true ∧
      (planCompute phase map caps limit).tileCount = phase.tileCount ∧
      (planCompute phase map caps limit).bytesPerTile.toNat = tileBytes map ∧
      (planCompute phase map caps limit).dispatchWindowTiles.toNat =
        chosenWindow phase map caps limit ∧
      (planCompute phase map caps limit).stagingBytes.toNat =
        windowBytes map (chosenWindow phase map caps limit) ∧
      (planCompute phase map caps limit).dispatchCount =
        checkedCeil phase.tileCount (planCompute phase map caps limit).dispatchWindowTiles := by
  obtain ⟨bytesPerTile, window, hbytes, hmoved, htile, hsum, hwindow, hplan⟩ :=
    planComputeDispatch_of_fits hvalid hone
  obtain ⟨hphase, hcaps, hop, hscalar, hapi, -, hpos⟩ := hvalid
  obtain ⟨⟨-, -, htiles, hstaged, -⟩, hmax⟩ := isGreatest_chosenWindow hpos hone
  have hbound := caps.stagingBytes.toNat_lt
  have hwindowPos : window ≠ 0 := toNat_pos_iff.mp (hwindow ▸ hmax hone)
  rw [windowBytes, ← hbytes, ← hwindow] at hstaged
  have hmul : bytesPerTile.toNat * window.toNat < 2 ^ 64 := by omega
  have hadd : (bytesPerTile * window).toNat + map.paramBytes.toNat < 2 ^ 64 := by
    rw [toNat_mul_of_fits hmul]
    omega
  have hstaging : (bytesPerTile * window + map.paramBytes).toNat =
      bytesPerTile.toNat * window.toNat + map.paramBytes.toNat := by
    rw [toNat_add_of_fits hadd, toNat_mul_of_fits hmul]
  have hbytesPos : bytesPerTile ≠ 0 := toNat_pos_iff.mp (hbytes ▸ hpos)
  have hstagingPos : bytesPerTile * window + map.paramBytes ≠ 0 := by
    rw [← toNat_pos_iff, hstaging]
    exact Nat.add_pos_left (Nat.mul_pos (toNat_pos_iff.mpr hbytesPos)
      (toNat_pos_iff.mpr hwindowPos)) _
  have htileCount : phase.tileCount ≠ 0 := by
    simp only [validateTilePhaseDescription, Bool.and_eq_true, bne_iff_ne] at hphase
    exact hphase.1.2
  have hwindowLe : window ≤ phase.tileCount := by
    rw [UInt64.le_iff_toNat_le, hwindow]
    exact htiles
  have hhash : (map.opHashHi != 0 || map.opHashLo != 0) = true := by
    rw [Bool.or_eq_true, bne_iff_ne, bne_iff_ne]
    exact not_and_or.mp hop
  rw [planCompute, hplan]
  refine ⟨rfl, ?_, rfl, hbytes, hwindow, ?_, rfl⟩
  · simp only [computePlanShapeValid, computePlanBytesValid, Bool.and_eq_true, beq_iff_eq,
      bne_iff_ne, decide_eq_true_eq]
    exact ⟨⟨⟨⟨⟨⟨⟨⟨⟨⟨⟨rfl, rfl⟩, hhash⟩, hapi⟩, hscalar⟩, htileCount⟩, hwindowPos⟩, hwindowLe⟩, rfl⟩,
      hbytesPos⟩, hstagingPos⟩, ⟨⟨⟨⟨hmoved, htile⟩, hsum.symm⟩, checkedMul_iff.mpr hmul⟩,
      checkedAdd_iff.mpr hadd⟩, rfl⟩
  · show (bytesPerTile * window + map.paramBytes).toNat = _
    rw [hstaging, hbytes, hwindow, windowBytes]

/-- **Every plan the planner makes has the shape of a plan, takes the largest window, and covers
every tile once; it makes one exactly when the request is valid and a window of one tile fits in
natural numbers, without a limit of 64 bits on any of the sizes.** -/
theorem planCompute_admits (phase : TilePhaseDescription) (map : ComputeMap) (caps : ComputeCaps)
    (limit : ComputeLimit) :
    ((planComputeDispatch phase map caps limit).ok = (planCompute phase map caps limit).ok) ∧
      ((planCompute phase map caps limit).ok = true ↔
        RequestValid phase map caps ∧ WindowFits phase map caps limit 1) ∧
      ((planCompute phase map caps limit).ok = true →
        computePlanShapeValid (planCompute phase map caps limit) = true ∧
          (planCompute phase map caps limit).tileCount = phase.tileCount ∧
          (planCompute phase map caps limit).dispatchWindowTiles ≠ 0 ∧
          IsGreatest {tiles | WindowFits phase map caps limit tiles}
            (planCompute phase map caps limit).dispatchWindowTiles.toNat ∧
          (planCompute phase map caps limit).bytesPerTile.toNat = tileBytes map ∧
          (planCompute phase map caps limit).stagingBytes.toNat =
            windowBytes map (planCompute phase map caps limit).dispatchWindowTiles.toNat ∧
          (∀ tile < phase.tileCount.toNat,
            ∃! k, k < (planCompute phase map caps limit).dispatchCount.toNat ∧
              InWindow (planCompute phase map caps limit) k tile) ∧
          ∀ k < (planCompute phase map caps limit).dispatchCount.toNat,
            ∃ tile, InWindow (planCompute phase map caps limit) k tile) := by
  have hsame : (planComputeDispatch phase map caps limit).ok =
      (planCompute phase map caps limit).ok := by
    rw [planCompute]
    cases h : (planComputeDispatch phase map caps limit).ok <;> simp
  have hiff : (planCompute phase map caps limit).ok = true ↔
      RequestValid phase map caps ∧ WindowFits phase map caps limit 1 := by
    constructor
    · intro hok
      exact RequestValid.of_planComputeDispatch (hsame.trans hok)
    · rintro ⟨hvalid, hone⟩
      exact (planCompute_of_fits hvalid hone).1
  refine ⟨hsame, hiff, fun hok => ?_⟩
  obtain ⟨hvalid, hone⟩ := hiff.mp hok
  obtain ⟨-, hshape, htiles, hbytes, hwindow, hstaging, hcount⟩ := planCompute_of_fits hvalid hone
  have hgreatest := isGreatest_chosenWindow hvalid.2.2.2.2.2.2 hone
  have hwindowPos : 0 < (planCompute phase map caps limit).dispatchWindowTiles.toNat :=
    hwindow ▸ hgreatest.2 hone
  have hcountNat := congrArg UInt64.toNat hcount
  rw [checkedCeil_toNat (toNat_pos_iff.mp hwindowPos)] at hcountNat
  refine ⟨hshape, htiles, toNat_pos_iff.mp hwindowPos, hwindow ▸ hgreatest, hbytes,
    hwindow ▸ hstaging, fun tile htile => ?_, fun k hk => ?_⟩
  · have hcover := ceil_windows_cover hwindowPos hcountNat htile
    simpa only [InWindow, htiles] using hcover
  · have hfirst := ceil_windows_nonempty hwindowPos hcountNat hk
    refine ⟨k * (planCompute phase map caps limit).dispatchWindowTiles.toNat, le_rfl, ?_⟩
    rw [htiles]
    refine lt_min ?_ hfirst
    rw [Nat.add_mul, Nat.one_mul]
    omega

/-- Seven tiles of eight bytes, under a staging limit of three and a half tiles. -/
theorem planCompute_admits_seven :
    (planCompute { phaseId := 1, tileCount := 7 }
        { opHashLo := 1, inputBytesPerTile := 4, outputBytesPerTile := 4 }
        { stagingBytes := 28, maxWindowTiles := 5, ok := true }
        { stagingBytes := 64, maxWindowTiles := 6 }).dispatchWindowTiles = 3 ∧
      computePlanShapeValid (planCompute { phaseId := 1, tileCount := 7 }
        { opHashLo := 1, inputBytesPerTile := 4, outputBytesPerTile := 4 }
        { stagingBytes := 28, maxWindowTiles := 5, ok := true }
        { stagingBytes := 64, maxWindowTiles := 6 }) = true :=
  ⟨by decide, ((planCompute_admits _ _ _ _).2.2 (by decide)).1⟩

end RunD
