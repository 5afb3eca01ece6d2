import Dorami.Riscv.Pmp

/-!
# Status codes of the security monitor (`sm_err.h`)
-/

namespace Dorami.Sm

open Riscv

/-- The values the functions of the security monitor return. -/
inductive SmStatus where
  | success
  | enclaveUnknownError
  | enclaveInvalidId
  | enclaveInterrupted
  | enclavePmpFailure
  | enclaveNotRunnable
  | enclaveNotDestroyable
  | enclaveRegionOverlaps
  | enclaveNotAccessible
  | enclaveIllegalArgument
  | enclaveNotRunning
  | enclaveNotResumable
  | enclaveEdgeCallHost
  | enclaveNotInitialized
  | enclaveNoFreeResource
  | enclaveSbiProhibited
  | enclaveIllegalPte
  | enclaveNotFresh
  | deprecated
  | notImplemented
  | pmpRegionSizeInvalid
  | pmpRegionNotPageGranularity
  | pmpRegionNotAligned
  | pmpRegionMaxReached
  | pmpRegionInvalid
  | pmpRegionOverlap
  | pmpRegionImpossibleTor
deriving DecidableEq, Repr

/-- The number `sm_err.h` gives a status. -/
def SmStatus.code : SmStatus → Word
  | success => 0
  | enclaveUnknownError => 100000
  | enclaveInvalidId => 100001
  | enclaveInterrupted => 100002
  | enclavePmpFailure => 100003
  | enclaveNotRunnable => 100004
  | enclaveNotDestroyable => 100005
  | enclaveRegionOverlaps => 100006
  | enclaveNotAccessible => 100007
  | enclaveIllegalArgument => 100008
  | enclaveNotRunning => 100009
  | enclaveNotResumable => 100010
  | enclaveEdgeCallHost => 100011
  | enclaveNotInitialized => 100012
  | enclaveNoFreeResource => 100013
  | enclaveSbiProhibited => 100014
  | enclaveIllegalPte => 100015
  | enclaveNotFresh => 100016
  | deprecated => 100099
  | notImplemented => 100100
  | pmpRegionSizeInvalid => 100020
  | pmpRegionNotPageGranularity => 100021
  | pmpRegionNotAligned => 100022
  | pmpRegionMaxReached => 100023
  | pmpRegionInvalid => 100024
  | pmpRegionOverlap => 100025
  | pmpRegionImpossibleTor => 100026

end Dorami.Sm
