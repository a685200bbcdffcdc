import VmpRl.Base.Wire
import VmpRl.PbrpcMessages

/-! The wire layout of the messages, from the descriptors of the generated code, and so an
instance of the protobuf functions that the rest of the development takes as a parameter. -/
namespace VmpRl.PbrpcWire
open Octets Wire PbrpcMessages

def rpcRequest : Schema PbcRpcRequest where
  toFields m := [putUint 1 m.id,putString 2 m.method] ++ (m.params.map (putRaw 3)).toList
  ofFields fields := do
    let id ← required 1 (uint 64) fields
    let method ← required 2 string fields
    let params ← mayHave 3 raw fields
    some ⟨id,method,params⟩
  fits m := by cases hp : m.params <;> simp
  inverse m := by
    obtain ⟨id,method,params⟩ := m
    cases params <;> simp [required, mayHave, last]

def rpcResponse : Schema PbcRpcResponse where
  toFields m := [putUint 1 m.id,putRaw 2 m.result] ++ (m.error.map (putString 3)).toList
  ofFields fields := do
    let id ← required 1 (uint 64) fields
    let result ← required 2 raw fields
    let error ← mayHave 3 string fields
    some ⟨id,result,error⟩
  fits m := by cases hp : m.error <;> simp
  inverse m := by
    obtain ⟨id,result,error⟩ := m
    cases error <;> simp [required, mayHave, last]

def demoReq : Schema PbcDemoReq where
  toFields m := [putUint 1 m.id]
  ofFields fields := (required 1 (uint 32) fields).map PbcDemoReq.mk
  fits m := by simp
  inverse m := by simp [required, last]

def demoRsp : Schema PbcDemoRsp where
  toFields m := [putUint 1 m.id,putUint 2 m.videoCnt,putUint 3 m.infoMem]
  ofFields fields := do
    let id ← required 1 (uint 32) fields
    let videoCnt ← required 2 (uint 32) fields
    let infoMem ← required 3 (uint 64) fields
    some ⟨id,videoCnt,infoMem⟩
  fits m := by simp
  inverse m := by simp [required, last]

def vmonReq : Schema PbcVmonReq where
  toFields m := [putUint 1 m.id]
  ofFields fields := (required 1 (uint 32) fields).map PbcVmonReq.mk
  fits m := by simp
  inverse m := by simp [required, last]

def vmonRsp : Schema PbcVmonRsp where
  toFields m := [putUint 1 m.id,putUint 2 m.count]
  ofFields fields := do
    let id ← required 1 (uint 32) fields
    let count ← required 2 (uint 32) fields
    some ⟨id,count⟩
  fits m := by simp
  inverse m := by simp [required, last]

def nodeStateReq : Schema PbcNodeStateReq where
  toFields m := [putUint 1 m.id]
  ofFields fields := (required 1 (uint 32) fields).map PbcNodeStateReq.mk
  fits m := by simp
  inverse m := by simp [required, last]

def nodeStateRsp : Schema PbcNodeStateRsp where
  toFields m := [putUint 1 m.id,putUint 2 m.index,putString 3 m.name,putUint 4 m.count,
    putUint 5 m.uplink,putUint 6 m.downlink,putUint 7 m.memory,putDouble 8 m.cpu]
  ofFields fields := do
    let id ← required 1 (uint 32) fields
    let index ← required 2 (uint 32) fields
    let name ← required 3 string fields
    let count ← required 4 (uint 32) fields
    let uplink ← required 5 (uint 64) fields
    let downlink ← required 6 (uint 64) fields
    let memory ← required 7 (uint 64) fields
    let cpu ← required 8 double fields
    some ⟨id,index,name,count,uplink,downlink,memory,cpu⟩
  fits m := by simp
  inverse m := by simp [required, last]

def registryReq : Schema PbcRegistryReq where
  toFields m := [putUint 1 m.sid,putString 2 m.name,putString 3 m.system,putString 4 m.location,
    putString 5 m.processor,putUint 6 m.bandwidth,putUint 7 m.memory,putString 8 m.ip,putUint 9 m.port]
  ofFields fields := do
    let sid ← required 1 (uint 32) fields
    let name ← required 2 string fields
    let system ← required 3 string fields
    let location ← required 4 string fields
    let processor ← required 5 string fields
    let bandwidth ← required 6 (uint 64) fields
    let memory ← required 7 (uint 64) fields
    let ip ← required 8 string fields
    let port ← required 9 (uint 32) fields
    some ⟨sid,name,system,location,processor,bandwidth,memory,ip,port⟩
  fits m := by simp
  inverse m := by simp [required, last]

def registryRsp : Schema PbcRegistryRsp where
  toFields m := [putUint 1 m.sid,putString 2 m.name,putUint 3 m.index] ++
    (m.num.map (putUint 4)).toList
  ofFields fields := do
    let sid ← required 1 (uint 32) fields
    let name ← required 2 string fields
    let index ← required 3 (uint 32) fields
    let num ← mayHave 4 (uint 32) fields
    some ⟨sid,name,index,num⟩
  fits m := by cases hp : m.num <;> simp
  inverse m := by
    obtain ⟨sid,name,index,num⟩ := m
    cases num <;> simp [required, mayHave, last]

def codec {M : Type} (s : Schema M) : Codec M := ⟨fun m => (s.pack m).length,s.pack,s.unpack⟩

theorem codecLawful {M : Type} (s : Schema M) : (codec s).Lawful := ⟨fun _ => rfl,s.unpackPack⟩

def wire : Protobuf where
  request := codec rpcRequest
  response := codec rpcResponse
  demoReq := codec demoReq
  demoRsp := codec demoRsp
  vmonReq := codec vmonReq
  vmonRsp := codec vmonRsp
  nodeStateReq := codec nodeStateReq
  nodeStateRsp := codec nodeStateRsp
  registryReq := codec registryReq
  registryRsp := codec registryRsp

theorem wireLawful : wire.Lawful where
  request := codecLawful rpcRequest
  response := codecLawful rpcResponse
  demoReq := codecLawful demoReq
  demoRsp := codecLawful demoRsp
  vmonReq := codecLawful vmonReq
  vmonRsp := codecLawful vmonRsp
  nodeStateReq := codecLawful nodeStateReq
  nodeStateRsp := codecLawful nodeStateRsp
  registryReq := codecLawful registryReq
  registryRsp := codecLawful registryRsp
  emptyDemoRsp := rfl
  emptyVmonRsp := rfl
  emptyNodeStateRsp := rfl
  emptyRegistryRsp := rfl

end VmpRl.PbrpcWire
