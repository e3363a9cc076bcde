import XmrigCC.JsonValues

/-!
# Status reports of miners

`ClientStatus` is what a miner reports to the server and what the server's list
of clients shows. Both directions are written out member by member.
-/

namespace XmrigCC.ClientStatuses

open ByteText JsonValues

/-- `ClientStatus::Status`. The cast in `toStatus` also makes the value of the third text,
for which the enumeration has no name. -/
inductive Status where
  /-- Mining. -/
  | RUNNING
  /-- Paused. -/
  | PAUSED
  /-- The value 2. -/
  | CONFIG_UPDATED
  deriving DecidableEq

/-- `status_str`, read through `ClientStatus::toString`. -/
def Status.toString : Status → Bytes
  | .RUNNING => text "RUNNING"
  | .PAUSED => text "PAUSED"
  | .CONFIG_UPDATED => text "CONFIG_UPDATED"

/-- `ClientStatus::toStatus`. -/
def toStatus (status : Bytes) : Status :=
  ([Status.RUNNING,.PAUSED,.CONFIG_UPDATED].find? fun s => s.toString=status).getD .RUNNING

/-- `ClientStatus`. -/
structure ClientStatus (D : Type) where
  /-- Mining or paused. -/
  m_currentStatus : Status
  /-- Name of the miner. -/
  m_clientId : Bytes
  /-- Pool mined at. -/
  m_currentPool : Bytes
  /-- Algorithm mined with. -/
  m_currentAlgoName : Bytes
  /-- Name of the CPU. -/
  m_cpuBrand : Bytes
  /-- Address the server saw. -/
  m_externalIp : Bytes
  /-- Version of the miner. -/
  m_version : Bytes
  /-- Huge pages are available. -/
  m_hasHugepages : Bool
  /-- Huge pages are used. -/
  m_isHugepagesEnabled : Bool
  /-- The CPU is a 64-bit one. -/
  m_isCpuX64 : Bool
  /-- The CPU has AES instructions. -/
  m_hasCpuAES : Bool
  /-- Hashes computed at once by a thread. -/
  m_hashFactor : Int32
  /-- Hashrate of the last seconds. -/
  m_hashrateShort : D
  /-- Hashrate of the last minute. -/
  m_hashrateMedium : D
  /-- Hashrate of the last quarter of an hour. -/
  m_hashrateLong : D
  /-- Highest hashrate. -/
  m_hashrateHighest : D
  /-- Threads mining. -/
  m_currentThreads : Int32
  /-- CPU sockets. -/
  m_cpuSockets : Int32
  /-- CPU cores. -/
  m_cpuCores : Int32
  /-- CPU threads. -/
  m_cpuThreads : Int32
  /-- Second level cache. -/
  m_cpuL2 : Int32
  /-- Third level cache. -/
  m_cpuL3 : Int32
  /-- Shares accepted. -/
  m_sharesGood : UInt64
  /-- Shares submitted. -/
  m_sharesTotal : UInt64
  /-- Hashes computed. -/
  m_hashesTotal : UInt64
  /-- Average time of a share. -/
  m_avgTime : UInt32
  /-- When the report came in. -/
  m_lastStatusUpdate : Int64

/-- `ClientStatus::ClientStatus`. -/
def ClientStatus.new {D : Type} (lib : Library D) : ClientStatus D where
  m_currentStatus := .PAUSED
  m_clientId := []
  m_currentPool := []
  m_currentAlgoName := []
  m_cpuBrand := []
  m_externalIp := []
  m_version := []
  m_hasHugepages := false
  m_isHugepagesEnabled := false
  m_isCpuX64 := false
  m_hasCpuAES := false
  m_hashFactor := 1
  m_hashrateShort := lib.ofInt 0
  m_hashrateMedium := lib.ofInt 0
  m_hashrateLong := lib.ofInt 0
  m_hashrateHighest := lib.ofInt 0
  m_currentThreads := 0
  m_cpuSockets := 0
  m_cpuCores := 0
  m_cpuThreads := 0
  m_cpuL2 := 0
  m_cpuL3 := 0
  m_sharesGood := 0
  m_sharesTotal := 0
  m_hashesTotal := 0
  m_avgTime := 0
  m_lastStatusUpdate := 0

/-- `ClientStatus::setExternalIp`. -/
def ClientStatus.setExternalIp {D : Type} (s : ClientStatus D) (externalIp : Bytes) :
    ClientStatus D :=
  {s with m_externalIp := externalIp}

/-- A member read with an accessor if it is present, else the old value. -/
def readMember {D α : Type} (lib : Library D) (object : Value D) (name : Bytes)
    (get : Value D → Read α) (old : α) : Read α := do
  if ←hasMember lib object name then get (←member lib object name) else return old

/-- The members that `ClientStatus::parseFromJson` reads from the object it found. -/
def ClientStatus.readMembers {D : Type} (lib : Library D) (now : Int64) (s : ClientStatus D)
    (clientStatus : Value D) : Read (ClientStatus D) := do
  let readString := fun name => readMember lib clientStatus name (getString lib)
  let readBool := fun name => readMember lib clientStatus name getBool
  let readInt := fun name => readMember lib clientStatus name (getInt lib)
  let readDouble := fun name => readMember lib clientStatus name (getDouble lib)
  let readUint64 := fun name => readMember lib clientStatus name (getUint64 lib)
  let currentStatus ← readMember lib clientStatus (text "current_status")
    (fun v => toStatus <$> getString lib v) s.m_currentStatus
  let clientId ← readString (text "client_id") s.m_clientId
  let currentPool ← readString (text "current_pool") s.m_currentPool
  let currentAlgoName ← readString (text "current_algo_name") s.m_currentAlgoName
  let cpuBrand ← readString (text "cpu_brand") s.m_cpuBrand
  let externalIp ← readString (text "external_ip") s.m_externalIp
  let version ← readString (text "version") s.m_version
  let hasHugepages ← readBool (text "hugepages_available") s.m_hasHugepages
  let isHugepagesEnabled ← readBool (text "hugepages_enabled") s.m_isHugepagesEnabled
  let hashFactor ← readInt (text "hash_factor") s.m_hashFactor
  let isCpuX64 ← readBool (text "cpu_is_x64") s.m_isCpuX64
  let hasCpuAES ← readBool (text "cpu_has_aes") s.m_hasCpuAES
  let hashrateShort ← readDouble (text "hashrate_short") s.m_hashrateShort
  let hashrateMedium ← readDouble (text "hashrate_medium") s.m_hashrateMedium
  let hashrateLong ← readDouble (text "hashrate_long") s.m_hashrateLong
  let hashrateHighest ← readDouble (text "hashrate_highest") s.m_hashrateHighest
  let currentThreads ← readInt (text "current_threads") s.m_currentThreads
  let cpuSockets ← readInt (text "cpu_sockets") s.m_cpuSockets
  let cpuCores ← readInt (text "cpu_cores") s.m_cpuCores
  let cpuThreads ← readInt (text "cpu_threads") s.m_cpuThreads
  let cpuL2 ← readInt (text "cpu_l2") s.m_cpuL2
  let cpuL3 ← readInt (text "cpu_l3") s.m_cpuL3
  let sharesGood ← readUint64 (text "shares_good") s.m_sharesGood
  let sharesTotal ← readUint64 (text "shares_total") s.m_sharesTotal
  let hashesTotal ← readUint64 (text "hashes_total") s.m_hashesTotal
  let avgTime ← readMember lib clientStatus (text "avg_time") (getUint lib) s.m_avgTime
  return ⟨currentStatus,clientId,currentPool,currentAlgoName,cpuBrand,externalIp,version,
    hasHugepages,isHugepagesEnabled,isCpuX64,hasCpuAES,hashFactor,hashrateShort,hashrateMedium,
    hashrateLong,hashrateHighest,currentThreads,cpuSockets,cpuCores,cpuThreads,cpuL2,cpuL3,
    sharesGood,sharesTotal,hashesTotal,avgTime,now⟩

/-- `ClientStatus::parseFromJson` at a time: the status afterwards and the result. -/
def ClientStatus.parseFromJson {D : Type} (lib : Library D) (now : Int64) (s : ClientStatus D)
    (document : Value D) : Read (ClientStatus D×Bool) := do
  if ←hasMember lib document (text "client_status") then
    let clientStatus ← getObject (←member lib document (text "client_status"))
    return (←s.readMembers lib now clientStatus,true)
  else return (s,false)

/-- `ClientStatus::toJson`. -/
def ClientStatus.toJson {D : Type} (s : ClientStatus D) : Value D :=
  .object [(text "current_status",.string s.m_currentStatus.toString),
    (text "client_id",.string (cStr s.m_clientId)),
    (text "current_pool",.string (cStr s.m_currentPool)),
    (text "current_algo_name",.string (cStr s.m_currentAlgoName)),
    (text "cpu_brand",.string (cStr s.m_cpuBrand)),
    (text "external_ip",.string (cStr s.m_externalIp)),
    (text "version",.string (cStr s.m_version)),
    (text "hugepages_available",.bool s.m_hasHugepages),
    (text "hugepages_enabled",.bool s.m_isHugepagesEnabled),
    (text "hash_factor",.int s.m_hashFactor.toInt),
    (text "cpu_is_x64",.bool s.m_isCpuX64),
    (text "cpu_has_aes",.bool s.m_hasCpuAES),
    (text "hashrate_short",.double s.m_hashrateShort),
    (text "hashrate_medium",.double s.m_hashrateMedium),
    (text "hashrate_long",.double s.m_hashrateLong),
    (text "hashrate_highest",.double s.m_hashrateHighest),
    (text "current_threads",.int s.m_currentThreads.toInt),
    (text "cpu_sockets",.int s.m_cpuSockets.toInt),
    (text "cpu_cores",.int s.m_cpuCores.toInt),
    (text "cpu_threads",.int s.m_cpuThreads.toInt),
    (text "cpu_l2",.int s.m_cpuL2.toInt),
    (text "cpu_l3",.int s.m_cpuL3.toInt),
    (text "shares_good",.int s.m_sharesGood.toNat),
    (text "shares_total",.int s.m_sharesTotal.toNat),
    (text "hashes_total",.int s.m_hashesTotal.toNat),
    (text "avg_time",.int s.m_avgTime.toNat),
    (text "last_status_update",.int s.m_lastStatusUpdate.toUInt64.toNat)]

end XmrigCC.ClientStatuses
