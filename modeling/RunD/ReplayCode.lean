/-
The codes a replay answers with.  Only those that a modelled function can
answer have a name here.
-/
import Mathlib.Tactic.Common

namespace RunD

/-- `Code`: a family in the upper half of the word, a number in the lower. -/
structure ReplayCode where
  raw : UInt32
  deriving DecidableEq, Repr

namespace ReplayCode

def ok : ReplayCode := ⟨0⟩

/-- A code of a family. -/
def ofFamily (family number : UInt32) : ReplayCode := ⟨(family <<< 16) ||| number⟩

/-- A code of the family `Replay`. -/
def replay (number : UInt32) : ReplayCode := ofFamily 1 number

def checkpointBadField : ReplayCode := replay 3
def checkpointBadHeader : ReplayCode := replay 4
def checkpointChainInvalid : ReplayCode := replay 7
def checkpointEncodedCapacityExceeded : ReplayCode := replay 10
def checkpointHashInvalid : ReplayCode := replay 11
def checkpointInvalid : ReplayCode := replay 12
def checkpointMovedFrom : ReplayCode := replay 14
def checkpointPositionOverflow : ReplayCode := replay 16
def checkpointRestoreInvalid : ReplayCode := replay 19
def checkpointEntryCapacityExceeded : ReplayCode := replay 21
def checkpointSegmentFailed : ReplayCode := replay 22
def checkpointStateCapacityExceeded : ReplayCode := replay 24
def checkpointStateHashInvalid : ReplayCode := replay 26
def checkpointStateSizeInvalid : ReplayCode := replay 27
def historyNotPrepared : ReplayCode := replay 33
def inputSourceHashMismatch : ReplayCode := replay 45
def recordStartInvalid : ReplayCode := replay 59
def recordStartMismatch : ReplayCode := replay 60
def retentionAllocationFailed : ReplayCode := replay 61
def retentionAnchorExceedsBounds : ReplayCode := replay 62
def retentionInvalid : ReplayCode := replay 63
def retentionRecordInvalid : ReplayCode := replay 64
def retentionSegmentExceedsBounds : ReplayCode := replay 65
def retentionStateInvalid : ReplayCode := replay 66
def retentionWeightOverflow : ReplayCode := replay 67
def stateSchemaInvalid : ReplayCode := replay 80
def allocationFailed : ReplayCode := replay 101
def artifactOutputInvalid : ReplayCode := replay 103
def artifactWriteFailed : ReplayCode := replay 104
def artifactCapacityExceeded : ReplayCode := replay 105

/-- A code of the family `Host`. -/
def host (number : UInt32) : ReplayCode := ofFamily 3 number

def hostBadHeader : ReplayCode := host 1
def hostBadIndex : ReplayCode := host 2
def hostBadValue : ReplayCode := host 3
def hostDiagnosticEventMismatch : ReplayCode := host 4
def hostDuplicateField : ReplayCode := host 6
def hostHashInvalid : ReplayCode := host 7
def hostPayloadCapacityExceeded : ReplayCode := host 11
def hostPayloadHashInvalid : ReplayCode := host 12
def hostPayloadMissing : ReplayCode := host 15

/-- A code of the family `Codec`. -/
def codec (number : UInt32) : ReplayCode := ofFamily 6 number

def codecInvariantInvalid : ReplayCode := codec 46
def codecEntryCapacityExceeded : ReplayCode := codec 57

end ReplayCode

end RunD
