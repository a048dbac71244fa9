import UbsMem.MsgPacker

/-! # The messages

Every message type with the fields its `Serialize` writes and its `Deserialize`
reads, in the order of each function's statements.

A field is a `Member`: one constructor per field name and C++ type, so that a name
used with two types (`nodes_`, `numaId_`, `isNuma_`) has two constructors.  An
object is a value for every member; a message uses those its functions name.
-/
namespace UbsMem

/-! ### Trivially copyable field types -/

namespace FieldTy

abbrev bool : FieldTy := .pod 1 (by decide)

/-- `int16_t`. -/
abbrev int16 : FieldTy := .pod 2 (by decide)

/-- `uint16_t`. -/
abbrev uint16 : FieldTy := .pod 2 (by decide)

/-- `int32_t`, `int`. -/
abbrev int32 : FieldTy := .pod 4 (by decide)

/-- `uint32_t`, `mode_t`. -/
abbrev uint32 : FieldTy := .pod 4 (by decide)

/-- `int64_t`. -/
abbrev int64 : FieldTy := .pod 8 (by decide)

/-- `uint64_t`, `size_t`. -/
abbrev uint64 : FieldTy := .pod 8 (by decide)

end FieldTy

/-- `SHMRegionDesc`: level, type and count, then `affinity[16]`, `nodeId[16][48]` and
`hostName[16][64]`. -/
def shmRegionDesc : FieldTy := .pod (4 + 4 + 4 + 16 + 16 * 48 + 16 * 64) (by decide)

/-- `SHMRegions`: a count and `region[6]`. -/
def shmRegions : FieldTy := .pod (4 + 6 * (4 + 4 + 4 + 16 + 16 * 48 + 16 * 64)) (by decide)

/-- `ubsmemClusterInfo`: a count, padding and `host[16]`, each with its name, NUMA
count, padding and `numa[32]` of 64 bytes. -/
def ubsmemClusterInfo : FieldTy := .pod (4 + 4 + 16 * (64 + 4 + 4 + 32 * 64)) (by decide)

/-- `ubsmem_shmem_info_t`: `name[49]`, size, count, unit size and `mem_id_list[2048]`,
with the padding that alignment adds. -/
def ubsmemShmemInfo : FieldTy := .pod (56 + 8 + 8 + 8 + 2048 * 8) (by decide)

/-- `ubsmem_shmem_desc_t`: `name[49]`, padding and size. -/
def ubsmemShmemDesc : FieldTy := .pod (56 + 8) (by decide)

/-! ### Members -/

/-- The fields of messages. -/
inductive Member
  | msgVer | opCode | destRankId | names | input | errCode | regionName | shmName | size | mode
  | flag | perflevel | isNuma | slotId | socketId | numaId | portId | memIds | name | numaIdWide
  | isNumaFlag | unitSize | info | records | baseNid | regionType | region | regionDesc | flags
  | hostName | prot | nodeId | masterNode | term | nodesById | isSeverInited | nodes | regions
  | shmSize | oflag | isMemFault | serverIp | dLockCode | memName | isExclusive | pid | uid | gid
  | nodetype | isGranted | shmInfo | queryMasterNodeFlag | nodeIsReady | isReady | prefix_
  | shmNames
  deriving DecidableEq

/-- The declared type of a field. -/
def Member.ty : Member → FieldTy
  | .msgVer | .opCode => .int16
  | .destRankId | .input | .mode | .slotId | .socketId | .numaId | .portId | .pid | .uid
  | .gid => .uint32
  | .names | .records | .nodes => .vector .string
  | .errCode | .regionType | .prot | .term | .oflag | .dLockCode | .nodetype => .int32
  | .regionName | .shmName | .name | .baseNid | .hostName | .nodeId | .masterNode | .serverIp
  | .memName | .prefix_ => .string
  | .size | .flag | .unitSize | .flags | .shmSize => .uint64
  | .perflevel | .isNuma => .uint16
  | .memIds => .vector .uint64
  | .numaIdWide => .int64
  | .isNumaFlag | .isSeverInited | .isMemFault | .isExclusive | .isGranted | .queryMasterNodeFlag
  | .nodeIsReady | .isReady => .bool
  | .info => ubsmemClusterInfo
  | .region | .regionDesc => shmRegionDesc
  | .nodesById => .map .clusterNode
  | .regions => shmRegions
  | .shmInfo => ubsmemShmemInfo
  | .shmNames => .vector ubsmemShmemDesc

/-- A message object. -/
def Msg := (f : Member) → f.ty.Val

/-- Assign to a field. -/
def Msg.set (o : Msg) (f : Member) (v : f.ty.Val) : Msg := Function.update o f v

@[simp] theorem Msg.set_self (o : Msg) (f : Member) (v : f.ty.Val) : o.set f v f = v := by
  exact Function.update_self f v o

theorem Msg.set_of_ne {f g : Member} (h : g ≠ f) (o : Msg) (v : f.ty.Val) : o.set f v g = o g := by
  exact Function.update_of_ne h v o

/-! ### Message types -/

/-- The message structures. -/
inductive MsgType
  | checkMemoryLeaseRequest | checkShareMemoryMapRequest | commonRequest | commonResponse
  | shmemAllocateRequest | shmemDeallocateRequest | appMallocMemoryRequest
  | appMallocMemoryWithLocRequest | appFreeMemoryRequest | appMallocMemoryResponse
  | appQueryClusterInfoResponse | appQueryCachedMemoryResponse | shmLookRegionListRequest
  | shmCreateRegionRequest | shmLookupRegionRequest | shmDestroyRegionRequest | shmCreateRequest
  | shmCreateWithProviderRequest | shmDeleteRequest | shmMapRequest | shmUnmapRequest
  | shmQueryMemFaultStatusRequest | pingRequest | voteRequest | broadcastRequest
  | transElectedRequest | shmLookRegionListResponse | shmCreateRegionResponse
  | shmLookupRegionResponse | shmDestroyRegionResponse | shmMapResponse
  | shmQueryMemFaultStatusResponse | shmWriteLockRequest | shmWriteLockResponse
  | shmReadLockRequest | shmReadLockResponse | shmUnLockRequest | shmUnLockResponse
  | rpcQueryInfoResponse | dLockClientReinitRequest | dLockClientReinitResponse | lockRequest
  | unLockRequest | dLockResponse | rpcJoinInfoResponse | rpcVoteInfoResponse | shmAttachRequest
  | shmAttachResponse | shmDetachRequest | shmLookupRequest | shmLookupResponse
  | queryNodeRequest | queryNodeResponse | queryDlockStatusResponse | shmListLookupRequest
  | shmListLookupResponse | lookupSlotIdResponse | ipcSuspendRequest | ipcResumeRequest
  deriving DecidableEq

/-- The fields of its own that `Serialize` writes, in order. -/
def MsgType.writes : MsgType → List Member
  | .checkMemoryLeaseRequest | .checkShareMemoryMapRequest => [.names]
  | .commonRequest => [.input]
  | .commonResponse | .shmCreateRegionResponse | .shmDestroyRegionResponse
  | .shmWriteLockResponse | .shmReadLockResponse | .shmUnLockResponse => [.errCode]
  | .shmemAllocateRequest => [.regionName, .shmName, .size, .mode, .flag]
  | .shmemDeallocateRequest => [.shmName]
  | .appMallocMemoryRequest => [.size, .perflevel, .isNuma, .regionName]
  | .appMallocMemoryWithLocRequest => [.size, .isNuma, .slotId, .socketId, .numaId, .portId]
  | .appFreeMemoryRequest => [.memIds, .regionName, .name]
  | .appMallocMemoryResponse => [.errCode, .memIds, .numaIdWide, .isNumaFlag, .unitSize, .name]
  | .appQueryClusterInfoResponse => [.errCode, .info]
  | .appQueryCachedMemoryResponse => [.errCode, .records]
  | .shmLookRegionListRequest => [.baseNid, .regionType]
  | .shmCreateRegionRequest => [.regionName, .region]
  | .shmLookupRegionRequest | .shmDestroyRegionRequest => [.regionName]
  | .shmCreateRequest => [.regionName, .name, .size, .baseNid, .regionDesc, .flags, .mode]
  | .shmCreateWithProviderRequest =>
    [.hostName, .socketId, .numaId, .portId, .name, .size, .flags, .mode]
  | .shmDeleteRequest | .shmUnmapRequest | .shmWriteLockRequest | .shmReadLockRequest
  | .shmUnLockRequest | .shmAttachRequest | .shmDetachRequest | .shmLookupRequest =>
    [.regionName, .name]
  | .shmMapRequest => [.regionName, .name, .size, .mode, .prot]
  | .shmQueryMemFaultStatusRequest => [.name]
  | .pingRequest => [.nodeId]
  | .voteRequest => [.nodeId, .masterNode, .term]
  | .broadcastRequest => [.nodeId, .nodesById, .isSeverInited]
  | .transElectedRequest => [.nodeId, .nodes, .term]
  | .shmLookRegionListResponse => [.errCode, .regions]
  | .shmLookupRegionResponse => [.errCode, .region]
  | .shmMapResponse | .shmAttachResponse => [.errCode, .memIds, .shmSize, .unitSize, .flag, .oflag]
  | .shmQueryMemFaultStatusResponse => [.errCode, .isMemFault]
  | .rpcQueryInfoResponse => [.errCode, .name]
  | .dLockClientReinitRequest => [.serverIp]
  | .dLockClientReinitResponse | .dLockResponse => [.errCode, .dLockCode]
  | .lockRequest => [.memName, .isExclusive, .pid, .uid, .gid]
  | .unLockRequest => [.memName, .pid, .uid, .gid]
  | .rpcJoinInfoResponse => [.errCode, .nodetype]
  | .rpcVoteInfoResponse => [.errCode, .name, .isGranted]
  | .shmLookupResponse => [.errCode, .shmInfo]
  | .queryNodeRequest => [.queryMasterNodeFlag]
  | .queryNodeResponse => [.errCode, .nodeId, .nodeIsReady]
  | .queryDlockStatusResponse => [.errCode, .isReady]
  | .shmListLookupRequest => [.regionName, .prefix_]
  | .shmListLookupResponse => [.errCode, .shmNames]
  | .lookupSlotIdResponse => [.errCode, .slotId]
  | .ipcSuspendRequest | .ipcResumeRequest => []

/-- The fields of its own that `Deserialize` reads, in order. -/
def MsgType.reads : MsgType → List Member
  | .checkMemoryLeaseRequest | .checkShareMemoryMapRequest => [.names]
  | .commonRequest => [.input]
  | .commonResponse | .shmCreateRegionResponse | .shmDestroyRegionResponse
  | .shmWriteLockResponse | .shmReadLockResponse | .shmUnLockResponse => [.errCode]
  | .shmemAllocateRequest => [.regionName, .shmName, .size, .mode, .flag]
  | .shmemDeallocateRequest => [.shmName]
  | .appMallocMemoryRequest => [.size, .perflevel, .isNuma, .regionName]
  | .appMallocMemoryWithLocRequest => [.size, .isNuma, .slotId, .socketId, .numaId, .portId]
  | .appFreeMemoryRequest => [.memIds, .regionName, .name]
  | .appMallocMemoryResponse => [.errCode, .memIds, .numaIdWide, .isNumaFlag, .unitSize, .name]
  | .appQueryClusterInfoResponse => [.errCode, .info]
  | .appQueryCachedMemoryResponse => [.errCode, .records]
  | .shmLookRegionListRequest => [.baseNid, .regionType]
  | .shmCreateRegionRequest => [.regionName, .region]
  | .shmLookupRegionRequest | .shmDestroyRegionRequest => [.regionName]
  | .shmCreateRequest => [.regionName, .name, .size, .baseNid, .regionDesc, .flags, .mode]
  | .shmCreateWithProviderRequest =>
    [.hostName, .socketId, .numaId, .portId, .name, .size, .flags, .mode]
  | .shmDeleteRequest | .shmUnmapRequest | .shmWriteLockRequest | .shmReadLockRequest
  | .shmUnLockRequest | .shmAttachRequest | .shmDetachRequest | .shmLookupRequest =>
    [.regionName, .name]
  | .shmMapRequest => [.regionName, .name, .size, .mode, .prot]
  | .shmQueryMemFaultStatusRequest => [.name]
  | .pingRequest => [.nodeId]
  | .voteRequest => [.nodeId, .masterNode, .term]
  | .broadcastRequest => [.nodeId, .nodesById, .isSeverInited]
  | .transElectedRequest => [.nodeId, .nodes, .term]
  | .shmLookRegionListResponse => [.errCode, .regions]
  | .shmLookupRegionResponse => [.errCode, .region]
  | .shmMapResponse | .shmAttachResponse => [.errCode, .memIds, .shmSize, .unitSize, .flag, .oflag]
  | .shmQueryMemFaultStatusResponse => [.errCode, .isMemFault]
  | .rpcQueryInfoResponse => [.errCode, .name]
  | .dLockClientReinitRequest => [.serverIp]
  | .dLockClientReinitResponse | .dLockResponse => [.errCode, .dLockCode]
  | .lockRequest => [.memName, .isExclusive, .pid, .uid, .gid]
  | .unLockRequest => [.memName, .pid, .uid, .gid]
  | .rpcJoinInfoResponse => [.errCode, .nodetype]
  | .rpcVoteInfoResponse => [.errCode, .name, .isGranted]
  | .shmLookupResponse => [.errCode, .shmInfo]
  | .queryNodeRequest => [.queryMasterNodeFlag]
  | .queryNodeResponse => [.errCode, .nodeId, .nodeIsReady]
  | .queryDlockStatusResponse => [.errCode, .isReady]
  | .shmListLookupRequest => [.regionName, .prefix_]
  | .shmListLookupResponse => [.errCode, .shmNames]
  | .lookupSlotIdResponse => [.errCode, .slotId]
  | .ipcSuspendRequest | .ipcResumeRequest => []

/-- The fields of `MsgBase`, which every message begins with. -/
def msgBase : List Member := [.msgVer, .opCode, .destRankId]

/-- The fields `Serialize` writes, in order. -/
def MsgType.serializeFields (t : MsgType) : List Member := msgBase ++ t.writes

/-- The fields `Deserialize` reads, in order. -/
def MsgType.deserializeFields (t : MsgType) : List Member := msgBase ++ t.reads

end UbsMem
