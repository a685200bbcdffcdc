import VmpRl.Base.Octets

/-! The protobuf messages of the envelope and of the services, as the generated
structures have them, and the protobuf-c functions on them as parameters. A `char *`
field that protobuf-c filled in is a C string; an optional field is an `Option`. -/
namespace VmpRl.PbrpcMessages
open Octets (Bytes CString)

structure PbcRpcRequest where
  id : BitVec 64
  method : CString
  params : Option Bytes
  deriving DecidableEq

structure PbcRpcResponse where
  id : BitVec 64
  result : Bytes
  error : Option CString
  deriving DecidableEq

def PbcRpcResponse.init : PbcRpcResponse := ⟨0,[],none⟩

structure PbcDemoReq where
  id : BitVec 32
  deriving DecidableEq

structure PbcDemoRsp where
  id : BitVec 32
  videoCnt : BitVec 32
  infoMem : BitVec 64
  deriving DecidableEq

structure PbcVmonReq where
  id : BitVec 32
  deriving DecidableEq

structure PbcVmonRsp where
  id : BitVec 32
  count : BitVec 32
  deriving DecidableEq

structure PbcNodeStateReq where
  id : BitVec 32
  deriving DecidableEq

/- `cpu` is the bit pattern of the double. -/
structure PbcNodeStateRsp where
  id : BitVec 32
  index : BitVec 32
  name : CString
  count : BitVec 32
  uplink : BitVec 64
  downlink : BitVec 64
  memory : BitVec 64
  cpu : BitVec 64
  deriving DecidableEq

structure PbcRegistryReq where
  sid : BitVec 32
  name : CString
  system : CString
  location : CString
  processor : CString
  bandwidth : BitVec 64
  memory : BitVec 64
  ip : CString
  port : BitVec 32
  deriving DecidableEq

structure PbcRegistryRsp where
  sid : BitVec 32
  name : CString
  index : BitVec 32
  num : Option (BitVec 32)
  deriving DecidableEq

/- The generated `__get_packed_size`, `__pack` and `__unpack` of one message type;
`none` is the NULL that `__unpack` returns. -/
structure Codec (M : Type) where
  getPackedSize : M → Nat
  pack : M → Bytes
  unpack : Bytes → Option M

structure Codec.Lawful {M : Type} (c : Codec M) : Prop where
  packedSize : ∀ m, c.getPackedSize m = (c.pack m).length
  unpackPack : ∀ m, c.unpack (c.pack m) = some m

structure Protobuf where
  request : Codec PbcRpcRequest
  response : Codec PbcRpcResponse
  demoReq : Codec PbcDemoReq
  demoRsp : Codec PbcDemoRsp
  vmonReq : Codec PbcVmonReq
  vmonRsp : Codec PbcVmonRsp
  nodeStateReq : Codec PbcNodeStateReq
  nodeStateRsp : Codec PbcNodeStateRsp
  registryReq : Codec PbcRegistryReq
  registryRsp : Codec PbcRegistryRsp

/- Unpacking inverts packing, the packed size is the number of bytes packed, and no bytes
at all lack the required fields of a service's response. -/
structure Protobuf.Lawful (pb : Protobuf) : Prop where
  request : pb.request.Lawful
  response : pb.response.Lawful
  demoReq : pb.demoReq.Lawful
  demoRsp : pb.demoRsp.Lawful
  vmonReq : pb.vmonReq.Lawful
  vmonRsp : pb.vmonRsp.Lawful
  nodeStateReq : pb.nodeStateReq.Lawful
  nodeStateRsp : pb.nodeStateRsp.Lawful
  registryReq : pb.registryReq.Lawful
  registryRsp : pb.registryRsp.Lawful
  emptyDemoRsp : pb.demoRsp.unpack [] = none
  emptyVmonRsp : pb.vmonRsp.unpack [] = none
  emptyNodeStateRsp : pb.nodeStateRsp.unpack [] = none
  emptyRegistryRsp : pb.registryRsp.unpack [] = none

theorem Codec.Lawful.packInjective {M : Type} {c : Codec M} (law : c.Lawful) {a b : M}
    (same : c.pack a = c.pack b) : a = b := by
  have h := law.unpackPack a
  rw [same, law.unpackPack b] at h
  exact (Option.some.inj h).symm

end VmpRl.PbrpcMessages
