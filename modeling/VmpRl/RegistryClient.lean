import VmpRl.ServiceClients

/-! The client stub of the registry service, and what of a registration and of its answer
survives the way through `registry_exec`. -/
namespace VmpRl.RegistryClient
open Octets CRuntime PbrpcMessages PbrpcXdr PbrpcService PbrpcClient PbrpcCalls PbrpcWire Services
open ServiceClients

/- No `char *` of it is NULL, and `ip` ends inside its array. -/
structure ClntServerRegistryReq (β κ : Type) where
  id : BitVec 32
  name : CString
  system : CString
  location : CString
  processor : CString
  bandwidth : BitVec 64
  memory : BitVec 64
  ip : CString
  ipFits : ip.bytes.length < 64
  port : BitVec 16
  ctx : κ
  pfnCallback : Option β

structure ClntServerRegistryRsp where
  id : BitVec 32
  name : CString
  index : BitVec 32
  num : BitVec 32
  deriving DecidableEq

structure RegistryCall (β κ : Type) where
  callback : β
  ctx : κ
  msg : Int
  info : Option ClntServerRegistryRsp

inductive ReplyFn where
  | registryReplyCb
  deriving DecidableEq, Repr

variable {β κ τ : Type}

def ClntServerRegistryReq.message (info : ClntServerRegistryReq β κ) : PbcRegistryReq :=
  ⟨info.id,info.name,info.system,info.location,info.processor,info.bandwidth,info.memory,info.ip,
    info.port.setWidth 32⟩

def registryRequestPack (pb : Protobuf) (req : PbcRegistryReq) : Bytes := pb.registryReq.pack req

/- The return value and the calls of `pfn_callback`; `num` is read only where `has_num` is set. -/
def registryReplyCb (pb : Protobuf) (priv : ClntServerRegistryReq β κ) (msg : Bytes) (ret : Int) :
    Int × List (RegistryCall β κ) :=
  let call (status : Int) (info : Option ClntServerRegistryRsp) : List (RegistryCall β κ) :=
    (priv.pfnCallback.map (fun callback => ⟨callback,priv.ctx,status,info⟩)).toList
  if ret ≠ 0 then (ret,[])
  else match pb.registryRsp.unpack msg with
    | none => (-1,call (-1) none)
    | some rsp => (ret,call 0 (some ⟨rsp.sid,rsp.name,rsp.index,rsp.num.getD 0⟩))

def rpcClntRegistry (pb : Protobuf) (memory : CallMemory)
    (p : Process ReplyFn (ClntServerRegistryReq β κ)) (info : ClntServerRegistryReq β κ) :
    Option (Process ReplyFn (ClntServerRegistryReq β κ)) :=
  step pb p (.call memory (cstr "Loader.registry") (registryRequestPack pb info.message)
    .registryReplyCb info)

def registryRequest (pb : Protobuf) (info : ClntServerRegistryReq β κ) (callId : BitVec 64) :
    PbcRpcRequest :=
  ⟨callId,cstr "Loader.registry",some (registryRequestPack pb info.message)⟩

structure Recorded (τ : Type) where
  state : τ
  received : List RpcServiceRegistryReq

def recorded (h : Handler τ .registry) : Handler (Recorded τ) .registry :=
  ⟨fun req w =>
    let (status, rsp, state) := h.pfnCallback req w.state
    (status,rsp,⟨state,w.received ++ [req]⟩)⟩

def recordedCalloc (calloc : τ → Bool × τ) : Recorded τ → Bool × Recorded τ := fun w =>
  ((calloc w.state).1,{w with state := (calloc w.state).2})

def ClntServerRegistryReq.meant (info : ClntServerRegistryReq β κ) : RpcServiceRegistryReq :=
  ⟨info.id,info.name,info.system,info.location,info.processor,info.bandwidth,info.memory,info.ip,
    info.port⟩

def meantAnswer (rsp : RpcServiceRegistryRsp) : ClntServerRegistryRsp :=
  ⟨rsp.id,rsp.name,rsp.index,rsp.num⟩

def Carried (pb : Protobuf) (calloc : τ → Bool × τ) (svc : Registry (Recorded τ))
    (h : Handler τ .registry) (info : ClntServerRegistryReq β κ) (callback : β) (callId : BitVec 64)
    (w : Daemon (Recorded τ)) : Prop :=
  ∃ ret rsp after,
    rpcInvokeCall (platform pb (recordedCalloc calloc)) svc (some (registryRequest pb info callId))
      .init w = .ok (ret,rsp,after) ∧
    after.state.received = w.state.received ++ [info.meant] ∧
    (registryReplyCb pb info rsp.result 0).2 = [⟨callback,info.ctx,0,
      some (meantAnswer (h.pfnCallback info.meant w.state.state).2.1)⟩]

def idOnly (id : BitVec 32) : RpcServiceRegistryReq := ⟨id,cut [],cut [],cut [],cut [],0,0,cut [],0⟩

structure IdsOnly (calloc : τ → Bool × τ) (h : Handler τ .registry) (info : ClntServerRegistryReq β κ)
    (w : τ) : Prop where
  request : info.meant = idOnly info.id
  name : (h.pfnCallback (idOnly info.id) w).2.1.name = cut []
  index : (h.pfnCallback (idOnly info.id) w).2.1.index = 0
  num : (h.pfnCallback (idOnly info.id) w).2.1.num = 0
  memory : (calloc (h.pfnCallback (idOnly info.id) w).2.2).1 = true

theorem registryWrites {pb : Protobuf} {p p' : Process ReplyFn (ClntServerRegistryReq β κ)}
    {info : ClntServerRegistryReq β κ} (called : rpcClntRegistry pb ⟨true,true,true⟩ p info = some p') :
    p'.clnt.writes = p.clnt.writes ++ [requestWrite pb (registryRequest pb info (nextId p.idGen).1)] := by
  simp only [rpcClntRegistry, step] at called
  split at called
  · cases Option.some.inj called
    rfl
  · cases called

section
variable {pb : Protobuf} {calloc : τ → Bool × τ} {h : Handler τ .registry}
  {info : ClntServerRegistryReq β κ} {callback : β}

theorem registryAnswered (law : pb.Lawful) (w : Daemon (Recorded τ))
    (memory : (calloc (h.pfnCallback (idOnly info.id) w.state.state).2.2).1 = true) :
    ∃ after, registryExec pb (recordedCalloc calloc) (recorded h)
        (registryRequestPack pb info.message) w = .ok (0,pb.registryRsp.pack
          ⟨(h.pfnCallback (idOnly info.id) w.state.state).2.1.id,cut [],0,none⟩,after) ∧
      after.state.received = w.state.received ++ [idOnly info.id] := by
  refine ⟨⟨⟨(calloc (h.pfnCallback (idOnly info.id) w.state.state).2.2).2,
    w.state.received ++ [idOnly info.id]⟩,w.callbacks ++ [.registry]⟩,?_,rfl⟩
  simp only [registryExec, serviceExec, registryRequestPack, law.registryReq.unpackPack]
  exact congrArg Except.ok (if_pos memory)

theorem registryNoMemory (law : pb.Lawful) (w : Daemon (Recorded τ))
    (memory : (calloc (h.pfnCallback (idOnly info.id) w.state.state).2.2).1 = false) :
    ∃ after, registryExec pb (recordedCalloc calloc) (recorded h)
      (registryRequestPack pb info.message) w = .ok (-1,[],after) := by
  refine ⟨⟨⟨(calloc (h.pfnCallback (idOnly info.id) w.state.state).2.2).2,
    w.state.received ++ [idOnly info.id]⟩,w.callbacks ++ [.registry]⟩,?_⟩
  simp only [registryExec, serviceExec, registryRequestPack, law.registryReq.unpackPack]
  exact congrArg Except.ok (if_neg (Bool.eq_false_iff.mp memory))

theorem registryInvoked {svc : Registry (Recorded τ)} (n : Named svc) {prog vers : BitVec 32}
    {name : Option CString} (member : (⟨prog,vers,name,.registry,recorded h⟩ : Callout _ _) ∈ svc)
    (callId : BitVec 64) {w after : Daemon (Recorded τ)} {ret : Int} {result : Bytes}
    (ran : registryExec pb (recordedCalloc calloc) (recorded h) (registryRequestPack pb info.message) w =
      .ok (ret,result,after)) :
    rpcInvokeCall (platform pb (recordedCalloc calloc)) svc (some (registryRequest pb info callId))
      .init w = .ok (ret,⟨callId,result,none⟩,after) := by
  have found := n.lookup member
  have exec : (platform pb (recordedCalloc calloc)).exec .registry (recorded h)
      (registryRequestPack pb info.message) w = .ok (ret,result,after) := ran
  have method : cstr "Loader.registry" = Service.scName .registry := rfl
  simp only [rpcInvokeCall, registryRequest, method, found, bind, Except.bind, exec]
  rfl

theorem registryReplied (law : pb.Lawful) (given : info.pfnCallback = some callback)
    (rsp : PbcRegistryRsp) : (registryReplyCb pb info (pb.registryRsp.pack rsp) 0).2 =
      [⟨callback,info.ctx,0,some ⟨rsp.sid,rsp.name,rsp.index,rsp.num.getD 0⟩⟩] := by
  simp [registryReplyCb, law.registryRsp.unpackPack, given]

theorem registryUnanswered (law : pb.Lawful) (given : info.pfnCallback = some callback) :
    (registryReplyCb pb info [] 0).2 = [⟨callback,info.ctx,-1,none⟩] := by
  simp [registryReplyCb, law.emptyRegistryRsp, given]
end

/- A registration and its answer arrive as they were meant exactly when only their ids were
filled in: the executor copies `sid` both ways and no other field. -/
theorem registrationCarried {pb : Protobuf} (law : pb.Lawful) (calloc : τ → Bool × τ)
    {svc : Registry (Recorded τ)} (built : Built svc) {prog vers : BitVec 32} {name : Option CString}
    (h : Handler τ .registry) (member : (⟨prog,vers,name,.registry,recorded h⟩ : Callout _ _) ∈ svc)
    (info : ClntServerRegistryReq β κ) (callback : β) (given : info.pfnCallback = some callback)
    {p p' : Process ReplyFn (ClntServerRegistryReq β κ)}
    (called : rpcClntRegistry pb ⟨true,true,true⟩ p info = some p') (w : Daemon (Recorded τ)) :
    p'.clnt.writes = p.clnt.writes ++ [requestWrite pb (registryRequest pb info (nextId p.idGen).1)] ∧
    (Carried pb calloc svc h info callback (nextId p.idGen).1 w ↔ IdsOnly calloc h info w.state.state) := by
  refine ⟨registryWrites called,?_⟩
  cases memory : (calloc (h.pfnCallback (idOnly info.id) w.state.state).2.2).1 with
  | false =>
    obtain ⟨after,ran⟩ := registryNoMemory law w memory
    have invoked := registryInvoked built.named member (nextId p.idGen).1 ran
    constructor
    · intro h
      obtain ⟨ret,rsp,_,again,_,replied⟩ := h
      rw [invoked] at again
      cases Except.ok.inj again
      rw [registryUnanswered law given] at replied
      have failed := congrArg RegistryCall.msg (List.cons.inj replied).1
      contradiction
    · intro only
      rw [only.memory] at memory
      cases memory
  | true =>
    obtain ⟨after,ran,received⟩ := registryAnswered law w memory
    have invoked := registryInvoked built.named member (nextId p.idGen).1 ran
    constructor
    · intro h
      obtain ⟨ret,rsp,_,again,whole,replied⟩ := h
      rw [invoked] at again
      cases Except.ok.inj again
      have request : info.meant = idOnly info.id := by
        rw [received] at whole
        exact (List.cons.inj (List.append_cancel_left whole)).1.symm
      rw [registryReplied law given, request] at replied
      have answer := Option.some.inj (congrArg RegistryCall.info (List.cons.inj replied).1)
      exact ⟨request,(congrArg ClntServerRegistryRsp.name answer).symm,
        (congrArg ClntServerRegistryRsp.index answer).symm,
        (congrArg ClntServerRegistryRsp.num answer).symm,memory⟩
    · intro only
      refine ⟨_,_,_,invoked,by rw [received, only.request],?_⟩
      rw [registryReplied law given, only.request, meantAnswer, only.name, only.index,
        only.num]
      rfl

def fixedRegistry : Handler Unit .registry := ⟨fun req w => (0,⟨req.id,cut [],0,0⟩,w)⟩
def registryService : Registry (Recorded Unit) := (serviceRegistryRegister true [] (recorded fixedRegistry)).2

theorem registryBuilt : Built registryService := .registry true (recorded fixedRegistry) .empty

def bareInfo : ClntServerRegistryReq Unit Nat :=
  ⟨1,cut [],cut [],cut [],cut [],0,0,cut [],by decide,0,7,some ()⟩

def serverInfo : ClntServerRegistryReq Unit Nat :=
  ⟨1,cstr "server1",cstr "ubuntu",cstr "chengdu",cstr "i7-5500U",1048576000,8589934592,
    cstr "localhost",by decide,9876,7,some ()⟩

theorem bareCarried : ∃ p', rpcClntRegistry wire ⟨true,true,true⟩ .new bareInfo = some p' ∧
    Carried wire alwaysMemory registryService fixedRegistry bareInfo () 1 ⟨⟨(),[]⟩,[]⟩ := by
  refine ⟨_,rfl,?_⟩
  exact (registrationCarried wireLawful alwaysMemory registryBuilt fixedRegistry List.mem_cons_self
    bareInfo () rfl (p := .new) rfl ⟨⟨(),[]⟩,[]⟩).2.mpr ⟨rfl,rfl,rfl,rfl,rfl⟩

theorem serverNotCarried : ¬ Carried wire alwaysMemory registryService fixedRegistry serverInfo () 1
    ⟨⟨(),[]⟩,[]⟩ := by
  have memory : (alwaysMemory (fixedRegistry.pfnCallback (idOnly serverInfo.id) ()).2.2).1 = true := rfl
  obtain ⟨after,ran,received⟩ := registryAnswered wireLawful ⟨⟨(),[]⟩,[]⟩ memory
  have invoked := registryInvoked registryBuilt.named List.mem_cons_self 1 ran
  intro h
  obtain ⟨ret,rsp,_,again,whole,_⟩ := h
  rw [invoked] at again
  cases Except.ok.inj again
  have ids := (List.cons.inj (received.symm.trans whole)).1
  have port := congrArg RpcServiceRegistryReq.port ids
  revert port
  decide

end VmpRl.RegistryClient
