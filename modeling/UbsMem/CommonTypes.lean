import UbsMem.ByteStream
import Mathlib.Data.List.AList

/-! # Types and codes shared by the daemon's modules

Return values are integers, as in the source: `0` is success, the daemon's own
errors and those of the UBSE client library share one number space.
-/
namespace UbsMem

/-- A name of a lease, a shared memory or a region: the characters of a
`std::string`. -/
abbrev Name := Bytes

/-- The region name `default`. -/
def defaultRegion : Name := [100, 101, 102, 97, 117, 108, 116]

/-- A hash map. -/
abbrev Map (K V : Type) := AList fun _ : K => V

/-! ### `UbsmdRetErr` -/

/-- `UBSM_OK`, `MXM_OK`, `HOK`. -/
def ubsmOk : Int := 0

def hFail : Int := 1

def mxmErrMallocFail : Int := 102

def mxmErrParamInvalid : Int := 104

def mxmErrDaemonNoFeatureEnabled : Int := 107

def mxmErrLockNotReady : Int := 300

def mxmErrLockAlreadyLocked : Int := 301

def mxmErrLockNotFound : Int := 302

def mxmErrDlockInner : Int := 304

def mxmErrRecordDelete : Int := 400

def mxmErrRecordAdd : Int := 401

def mxmErrRecordChangeState : Int := 402

def mxmErrRegionParamInvalid : Int := 501

def mxmErrRegionExist : Int := 502

def mxmErrRegionNotExist : Int := 503

def mxmErrShmNotFound : Int := 600

def mxmErrShmAlreadyExist : Int := 601

def mxmErrShmPermissionDenied : Int := 602

def mxmErrShmInUsing : Int := 603

def mxmErrShmInvalidNuma : Int := 605

def mxmErrShmNotExist : Int := 606

def mxmErrNameBusy : Int := 650

def mxmErrLeaseNotFound : Int := 700

def mxmErrLeaseNotExist : Int := 701

def mxmErrUbseInner : Int := 800

def mxmErrUbseLib : Int := 801

def mxmErrUbseNotAttach : Int := 802

def mxmErrUbseNotSupported : Int := 803

def mxmTimeOutTaskNeedRetry : Int := 950

/-! ### `ubs_error_t` -/

def ubsSuccess : Int := 0

def ubsErrNotSupported : Int := 41

def ubsErrTimedOut : Int := 43

def ubsEngineErrExisted : Int := 1006

def ubsEngineErrNotExist : Int := 1007

def ubsEngineErrUnimportSuccess : Int := 1012

/-! No error code that the record store, the manager or UBSE may report is success. -/

@[simp] theorem mxmErrParamInvalid_ne : mxmErrParamInvalid ≠ ubsmOk := by decide

@[simp] theorem mxmErrLockAlreadyLocked_ne : mxmErrLockAlreadyLocked ≠ ubsmOk := by decide

@[simp] theorem mxmErrLockNotFound_ne : mxmErrLockNotFound ≠ ubsmOk := by decide

@[simp] theorem mxmErrRecordAdd_ne : mxmErrRecordAdd ≠ ubsmOk := by decide

@[simp] theorem mxmErrRecordChangeState_ne : mxmErrRecordChangeState ≠ ubsmOk := by decide

@[simp] theorem mxmErrRecordDelete_ne : mxmErrRecordDelete ≠ ubsmOk := by decide

@[simp] theorem mxmErrShmNotFound_ne : mxmErrShmNotFound ≠ ubsmOk := by decide

@[simp] theorem mxmErrShmAlreadyExist_ne : mxmErrShmAlreadyExist ≠ ubsmOk := by decide

@[simp] theorem mxmErrShmInUsing_ne : mxmErrShmInUsing ≠ ubsmOk := by decide

@[simp] theorem mxmErrNameBusy_ne : mxmErrNameBusy ≠ ubsmOk := by decide

@[simp] theorem mxmErrUbseInner_ne : mxmErrUbseInner ≠ ubsmOk := by decide

@[simp] theorem mxmErrUbseNotAttach_ne : mxmErrUbseNotAttach ≠ ubsmOk := by decide

@[simp] theorem mxmErrUbseNotSupported_ne : mxmErrUbseNotSupported ≠ ubsmOk := by decide

@[simp] theorem ubsErrTimedOut_ne : ubsErrTimedOut ≠ ubsmOk := by decide

/-! ### Records -/

/-- `AppContext`: the process on whose behalf something is done. -/
structure AppContext where
  pid : Nat
  uid : Nat
  gid : Nat
  deriving DecidableEq

inductive RecordState
  | preAdd
  | finish
  | preDel
  | deleted
  deriving DecidableEq

/-- `ubs_mem_stage`: how far UBSE is with a memory. -/
inductive MemStage
  | notExist
  | creating
  | deleting
  | exist
  | errOnlyImport
  | errWaitUnexport
  | endMark
  deriving DecidableEq

end UbsMem
