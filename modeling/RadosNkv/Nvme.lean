import RadosNkv.Rpc

/-! The NVMe commands and completions that the host side and the target exchange, with the status
codes of the KV command set. -/

namespace RadosNkv

structure SglBlock where
  address : Nat
  length : Nat

structure NvmeCmd where
  opc : Nat
  cid : Nat
  nsid : Nat
  vsize : Nat
  kl : Nat
  ro : Nat
  cdw12 : Nat
  cdw13 : Nat
  dptr : List SglBlock

def NvmeCmd.zero : NvmeCmd := ⟨0, 0, 0, 0, 0, 0, 0, 0, []⟩

structure NvmeCpl where
  cdw0 : Nat
  cid : Nat
  p : Bool
  sct : Nat
  sc : Nat
deriving DecidableEq

def NvmeCpl.zero : NvmeCpl := ⟨0, 0, false, 0, 0⟩

structure NvmeStatus where
  sct : Nat
  sc : Nat
  cdw0 : Nat
deriving DecidableEq

def sctGeneric : Nat := 0x0
def sctCommandSpecific : Nat := 0x1

/-- The status codes that the target uses (`SPDK_NVME_SC_*`). -/
def scSuccess : Nat := 0x00
def scInvalidOpcode : Nat := 0x01
def scInvalidField : Nat := 0x02
def scInternalDeviceError : Nat := 0x06
def scAbortedByRequest : Nat := 0x07
def scInvalidNamespaceOrFormat : Nat := 0x0b
def scCapacityExceeded : Nat := 0x81
def scAttemptedWriteToRoRange : Nat := 0x82
def scInvalidKeySize : Nat := 0x86
def scKvKeyDoesNotExist : Nat := 0x87
def scKeyExists : Nat := 0x89

def opcKvStore : Nat := 0x01
def opcKvRetrieve : Nat := 0x02
def opcKvList : Nat := 0x06
def opcKvDelete : Nat := 0x10
def opcKvExist : Nat := 0x14
def opcKvExec : Nat := 0x83

abbrev HostMem := Nat → UInt8

def leU16 (n : Nat) : Bytes := [UInt8.ofNat n, UInt8.ofNat (n / 256)]

lemma leU16_toNat (h : n ≤ 255) :
    leU16 n = [UInt8.ofNat n, 0] ∧ (UInt8.ofNat n).toNat + 256 * (0 : UInt8).toNat = n := by
  have hz : n / 256 = 0 := by omega
  refine ⟨by simp [leU16, hz], ?_⟩
  simp
  omega

lemma length_keyHead (key : Bytes) : (leU16 key.length ++ key).length = 2 + key.length := by
  rw [List.length_append]
  rfl

def eIo : Int := 5
def eNomem : Int := 12
def eInval : Int := 22
def eTimedout : Int := 110

end RadosNkv
