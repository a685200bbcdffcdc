import VmpRl.PbrpcCalls
import VmpRl.Services

/-! The client stubs of the services: the calls they make, their reply callbacks, and how the
outcome of a call and the values of its response reach the caller's callback. -/
namespace VmpRl.ServiceClients
open Octets CRuntime PbrpcMessages PbrpcXdr PbrpcService PbrpcClient PbrpcCalls PbrpcWire Services
open Transition

inductive Stub where
  | demo
  | vmon
  | nodeState
  deriving DecidableEq, Repr

def Stub.service : Stub → Service
  | .demo => .demo
  | .vmon => .vmon
  | .nodeState => .nodeState

structure ClntReq (β κ : Type) where
  id : BitVec 32
  ctx : κ
  pfnCallback : Option β

structure ClntDemoRsp where
  id : BitVec 32
  count : BitVec 32
  memory : BitVec 32
  deriving DecidableEq

structure ClntVmonRsp where
  id : BitVec 32
  count : BitVec 32
  deriving DecidableEq

structure ClntNodeStateRsp where
  id : BitVec 32
  index : BitVec 32
  name : CString
  count : BitVec 32
  uplink : BitVec 64
  downlink : BitVec 64
  memory : BitVec 64
  cpu : BitVec 64
  deriving DecidableEq

inductive ClntRsp where
  | demo (info : ClntDemoRsp)
  | vmon (info : ClntVmonRsp)
  | nodeState (info : ClntNodeStateRsp)
  deriving DecidableEq

structure UserCall (β κ : Type) where
  callback : β
  ctx : κ
  msg : Int
  info : Option ClntRsp

variable {β κ τ : Type}

def stubReply {R : Type} (rsp : Codec R) (info : R → ClntRsp) (priv : ClntReq β κ) (msg : Bytes)
    (ret : Int) : Int × List (UserCall β κ) :=
  let call (status : Int) (info : Option ClntRsp) : List (UserCall β κ) :=
    (priv.pfnCallback.map (fun callback => ⟨callback,priv.ctx,status,info⟩)).toList
  if ret ≠ 0 then (ret,[])
  else match rsp.unpack msg with
    | none => (-1,call (-1) none)
    | some rsp => (ret,call 0 (some (info rsp)))

/- `info.memory` is an unsigned int. -/
def demoReplyCb (pb : Protobuf) : ClntReq β κ → Bytes → Int → Int × List (UserCall β κ) :=
  stubReply pb.demoRsp (fun rsp => .demo ⟨rsp.id,rsp.videoCnt,rsp.infoMem.setWidth 32⟩)

def vmonReplyCb (pb : Protobuf) : ClntReq β κ → Bytes → Int → Int × List (UserCall β κ) :=
  stubReply pb.vmonRsp (fun rsp => .vmon ⟨rsp.id,rsp.count⟩)

def nodeStateReplyCb (pb : Protobuf) : ClntReq β κ → Bytes → Int → Int × List (UserCall β κ) :=
  stubReply pb.nodeStateRsp (fun rsp => .nodeState ⟨rsp.id,rsp.index,rsp.name,rsp.count,rsp.uplink,
    rsp.downlink,rsp.memory,rsp.cpu⟩)

def replyCb (pb : Protobuf) : Stub → ClntReq β κ → Bytes → Int → Int × List (UserCall β κ)
  | .demo => demoReplyCb pb
  | .vmon => vmonReplyCb pb
  | .nodeState => nodeStateReplyCb pb

def userCalls (pb : Protobuf) (replies : List (Reply Stub (ClntReq β κ))) : List (UserCall β κ) :=
  replies.flatMap (fun reply => (replyCb pb reply.replymsg reply.ctx reply.result reply.ret).2)

def Stub.method (stub : Stub) : CString := stub.service.scName

def Stub.params (pb : Protobuf) : Stub → ClntReq β κ → Bytes
  | .demo, info => pb.demoReq.pack ⟨info.id⟩
  | .vmon, info => pb.vmonReq.pack ⟨info.id⟩
  | .nodeState, info => pb.nodeStateReq.pack ⟨info.id⟩

def rpcClnt (pb : Protobuf) (stub : Stub) (memory : CallMemory)
    (p : Process Stub (ClntReq β κ)) (info : ClntReq β κ) : Option (Process Stub (ClntReq β κ)) :=
  step pb p (.call memory stub.method (stub.params pb info) stub info)

def handlerRun : (service : Service) → Handler τ service → BitVec 32 → τ → Int × τ
  | .demo, h, id, w => ((h.pfnCallback ⟨id⟩ w).1,(h.pfnCallback ⟨id⟩ w).2.2)
  | .registry, h, id, w =>
    ((h.pfnCallback ⟨id,cut [],cut [],cut [],cut [],0,0,cut [],0⟩ w).1,
      (h.pfnCallback ⟨id,cut [],cut [],cut [],cut [],0,0,cut [],0⟩ w).2.2)
  | .vmon, h, id, w => ((h.pfnCallback ⟨id⟩ w).1,(h.pfnCallback ⟨id⟩ w).2.2)
  | .nodeState, h, id, w => ((h.pfnCallback ⟨id⟩ w).1,(h.pfnCallback ⟨id⟩ w).2.2)

def Answers (calloc : τ → Bool × τ) (svc : Registry τ) (service : Service) (id : BitVec 32) (w : τ)
    (status : Int → Prop) : Prop :=
  ∃ s ∈ svc, s.dispatch = service ∧ (calloc (handlerRun s.dispatch s.scArgs id w).2).1 = true ∧
    status (handlerRun s.dispatch s.scArgs id w).1

section
variable {Q R SQ SR : Type} {service : Service} {req : Codec Q} {svcReq : Q → SQ} {rsp : Codec R}
  {pbcRsp : Q → SR → R} {calloc : τ → Bool × τ} {h : SvcHandler SQ SR τ} {w : Daemon τ}
  {info : R → ClntRsp} {priv : ClntReq β κ} {callback : β}

theorem execReply (reqLaw : req.Lawful) (rspLaw : rsp.Lawful) (message : Q)
    (given : priv.pfnCallback = some callback)
    (memory : (calloc (h.pfnCallback (svcReq message) w.state).2.2).1 = true) :
    ∃ result after,
      serviceExec service req svcReq rsp pbcRsp calloc h (req.pack message) w = .ok (0,result,after) ∧
      stubReply rsp info priv result 0 = (0,[⟨callback,priv.ctx,0,
        some (info (pbcRsp message (h.pfnCallback (svcReq message) w.state).2.1))⟩]) := by
  refine ⟨_,_,by simp only [serviceExec, reqLaw.unpackPack, memory, if_true]; rfl,?_⟩
  simp only [stubReply, rspLaw.unpackPack, given]
  rfl

theorem execNoMemory (reqLaw : req.Lawful) (message : Q)
    (memory : (calloc (h.pfnCallback (svcReq message) w.state).2.2).1 = false) :
    ∃ after, serviceExec service req svcReq rsp pbcRsp calloc h (req.pack message) w =
      .ok (-1,[],after) :=
  ⟨_,by simp only [serviceExec, reqLaw.unpackPack, memory]; rfl⟩
end

section
variable {pb : Protobuf} {calloc : τ → Bool × τ} {svc : Registry τ} {priv : ClntReq β κ} {callback : β}

def Stub.request (pb : Protobuf) (stub : Stub) (priv : ClntReq β κ) (callId : BitVec 64) : PbcRpcRequest :=
  ⟨callId,stub.method,some (stub.params pb priv)⟩

theorem invokeRegistered (n : Named svc) {s : Callout Service (Handler τ)} (member : s ∈ svc)
    {stub : Stub} (served : s.dispatch = stub.service) (callId : BitVec 64) {w after : Daemon τ}
    {ret : Int} {result : Bytes}
    (ran : (platform pb calloc).exec s.dispatch s.scArgs (stub.params pb priv) w =
      .ok (ret,result,after)) :
    rpcInvokeCall (platform pb calloc) svc (some (stub.request pb priv callId)) .init w =
      .ok (ret,⟨callId,result,none⟩,after) := by
  have found := n.lookup member
  rw [served] at found
  simp only [rpcInvokeCall, Stub.request, Stub.method, found, bind, Except.bind, ran]
  rfl

theorem invokeUnregistered (n : Named svc) {stub : Stub}
    (absent : ∀ s ∈ svc, s.dispatch ≠ stub.service) (callId : BitVec 64) (w : Daemon τ) :
    rpcInvokeCall (platform pb calloc) svc (some (stub.request pb priv callId)) .init w =
      .ok (-1,⟨callId,[],none⟩,w) := by
  have missing := n.lookupAbsent stub.method (fun s member same =>
    absent s member (scNameInjective same))
  simp only [rpcInvokeCall, Stub.request, missing, bind, Except.bind]
  rfl

theorem demoReply (law : pb.Lawful) (given : priv.pfnCallback = some callback) (h : Handler τ .demo)
    (w : Daemon τ) (memory : (calloc (h.pfnCallback ⟨priv.id⟩ w.state).2.2).1 = true) :
    ∃ result after, demoExec pb calloc h (pb.demoReq.pack ⟨priv.id⟩) w = .ok (0,result,after) ∧
      demoReplyCb pb priv result 0 = (0,[⟨callback,priv.ctx,0,some (.demo ⟨priv.id,
        (h.pfnCallback ⟨priv.id⟩ w.state).2.1.cnt,
        (h.pfnCallback ⟨priv.id⟩ w.state).2.1.mem.setWidth 32⟩)⟩]) :=
  execReply law.demoReq law.demoRsp ⟨priv.id⟩ given memory

theorem vmonReply (law : pb.Lawful) (given : priv.pfnCallback = some callback) (h : Handler τ .vmon)
    (w : Daemon τ) (memory : (calloc (h.pfnCallback ⟨priv.id⟩ w.state).2.2).1 = true) :
    ∃ result after, vmonExec pb calloc h (pb.vmonReq.pack ⟨priv.id⟩) w = .ok (0,result,after) ∧
      vmonReplyCb pb priv result 0 = (0,[⟨callback,priv.ctx,0,some (.vmon ⟨priv.id,
        (h.pfnCallback ⟨priv.id⟩ w.state).2.1.num⟩)⟩]) :=
  execReply law.vmonReq law.vmonRsp ⟨priv.id⟩ given memory

theorem nodeStateReply (law : pb.Lawful) (given : priv.pfnCallback = some callback)
    (h : Handler τ .nodeState) (w : Daemon τ)
    (memory : (calloc (h.pfnCallback ⟨priv.id⟩ w.state).2.2).1 = true) :
    ∃ result after,
      nodeStateExec pb calloc h (pb.nodeStateReq.pack ⟨priv.id⟩) w = .ok (0,result,after) ∧
      nodeStateReplyCb pb priv result 0 = (0,[⟨callback,priv.ctx,0,some (.nodeState ⟨priv.id,
        (h.pfnCallback ⟨priv.id⟩ w.state).2.1.index,
        (h.pfnCallback ⟨priv.id⟩ w.state).2.1.name.getD (cut []),
        (h.pfnCallback ⟨priv.id⟩ w.state).2.1.count,
        (h.pfnCallback ⟨priv.id⟩ w.state).2.1.uplink,
        (h.pfnCallback ⟨priv.id⟩ w.state).2.1.downlink,
        (h.pfnCallback ⟨priv.id⟩ w.state).2.1.memory,
        (h.pfnCallback ⟨priv.id⟩ w.state).2.1.cpu⟩)⟩]) :=
  execReply law.nodeStateReq law.nodeStateRsp ⟨priv.id⟩ given memory

theorem registeredReply (law : pb.Lawful) {stub : Stub} {s : Callout Service (Handler τ)}
    (served : s.dispatch = stub.service) (given : priv.pfnCallback = some callback) {w : Daemon τ}
    (memory : (calloc (handlerRun s.dispatch s.scArgs priv.id w.state).2).1 = true) :
    ∃ result after data, (platform pb calloc).exec s.dispatch s.scArgs (stub.params pb priv) w =
        .ok (0,result,after) ∧
      replyCb pb stub priv result 0 = (0,[⟨callback,priv.ctx,0,some data⟩]) := by
  obtain ⟨prog,vers,name,dispatch,args⟩ := s
  subst served
  cases stub with
  | demo =>
    obtain ⟨result,after,reply⟩ := demoReply law given args w memory
    exact ⟨result,after,_,reply⟩
  | vmon =>
    obtain ⟨result,after,reply⟩ := vmonReply law given args w memory
    exact ⟨result,after,_,reply⟩
  | nodeState =>
    obtain ⟨result,after,reply⟩ := nodeStateReply law given args w memory
    exact ⟨result,after,_,reply⟩

theorem demoNoMemory (law : pb.Lawful) (h : Handler τ .demo) (w : Daemon τ) (id : BitVec 32)
    (memory : (calloc (h.pfnCallback ⟨id⟩ w.state).2.2).1 = false) :
    ∃ after, demoExec pb calloc h (pb.demoReq.pack ⟨id⟩) w = .ok (-1,[],after) :=
  execNoMemory law.demoReq ⟨id⟩ memory

theorem vmonNoMemory (law : pb.Lawful) (h : Handler τ .vmon) (w : Daemon τ) (id : BitVec 32)
    (memory : (calloc (h.pfnCallback ⟨id⟩ w.state).2.2).1 = false) :
    ∃ after, vmonExec pb calloc h (pb.vmonReq.pack ⟨id⟩) w = .ok (-1,[],after) :=
  execNoMemory law.vmonReq ⟨id⟩ memory

theorem nodeStateNoMemory (law : pb.Lawful) (h : Handler τ .nodeState) (w : Daemon τ) (id : BitVec 32)
    (memory : (calloc (h.pfnCallback ⟨id⟩ w.state).2.2).1 = false) :
    ∃ after, nodeStateExec pb calloc h (pb.nodeStateReq.pack ⟨id⟩) w = .ok (-1,[],after) :=
  execNoMemory law.nodeStateReq ⟨id⟩ memory

theorem registeredNoMemory (priv : ClntReq β κ) (law : pb.Lawful) {stub : Stub} {s : Callout Service (Handler τ)}
    (served : s.dispatch = stub.service) {w : Daemon τ}
    (memory : (calloc (handlerRun s.dispatch s.scArgs priv.id w.state).2).1 = false) :
    ∃ after, (platform pb calloc).exec s.dispatch s.scArgs (stub.params pb priv) w =
      .ok (-1,[],after) := by
  obtain ⟨prog,vers,name,dispatch,args⟩ := s
  subst served
  cases stub with
  | demo => exact demoNoMemory law args w priv.id memory
  | vmon => exact vmonNoMemory law args w priv.id memory
  | nodeState => exact nodeStateNoMemory law args w priv.id memory

theorem emptyReply (law : pb.Lawful) (stub : Stub) (given : priv.pfnCallback = some callback) :
    replyCb pb stub priv [] 0 = (-1,[⟨callback,priv.ctx,-1,none⟩]) := by
  cases stub with
  | demo => simp [replyCb, demoReplyCb, stubReply, law.emptyDemoRsp, given]
  | vmon => simp [replyCb, vmonReplyCb, stubReply, law.emptyVmonRsp, given]
  | nodeState => simp [replyCb, nodeStateReplyCb, stubReply, law.emptyNodeStateRsp, given]
theorem invokeStub (calloc : τ → Bool × τ) (law : pb.Lawful) (n : Named svc) (stub : Stub)
    (given : priv.pfnCallback = some callback) (callId : BitVec 64) (w : Daemon τ) :
    ∃ ret result after status data,
      rpcInvokeCall (platform pb calloc) svc (some (stub.request pb priv callId)) .init w =
        .ok (ret,⟨callId,result,none⟩,after) ∧
      (replyCb pb stub priv result 0).2 = [⟨callback,priv.ctx,status,data⟩] ∧
      ((status = 0 ∧ Answers calloc svc stub.service priv.id w.state (fun _ => True)) ∨
        (status = -1 ∧ ¬ Answers calloc svc stub.service priv.id w.state (fun _ => True))) := by
  by_cases registered : ∃ s ∈ svc, s.dispatch = stub.service
  · obtain ⟨s,member,served⟩ := registered
    cases memory : (calloc (handlerRun s.dispatch s.scArgs priv.id w.state).2).1 with
    | true =>
      obtain ⟨result,after,data,ran,replied⟩ := registeredReply law served given memory
      refine ⟨0,result,after,0,some data,invokeRegistered n member served callId ran,by rw [replied],?_⟩
      exact Or.inl ⟨rfl,s,member,served,memory,trivial⟩
    | false =>
      obtain ⟨after,ran⟩ := registeredNoMemory priv law served memory
      refine ⟨-1,[],after,-1,none,invokeRegistered n member served callId ran,
        by rw [emptyReply law stub given],Or.inr ⟨rfl,?_⟩⟩
      intro h
      obtain ⟨t,there,dispatch,enough,_⟩ := h
      obtain rfl := List.inj_on_of_nodup_map n.once member there (served.trans dispatch.symm)
      rw [memory] at enough
      cases enough
  · have absent : ∀ s ∈ svc, s.dispatch ≠ stub.service := fun s member served =>
      registered ⟨s,member,served⟩
    refine ⟨-1,[],w,-1,none,invokeUnregistered n absent callId w,by rw [emptyReply law stub given],
      Or.inr ⟨rfl,?_⟩⟩
    intro h
    obtain ⟨s,member,served,_⟩ := h
    exact absent s member served
end

def stubCall (p : Process Stub (ClntReq β κ)) (stub : Stub) (info : ClntReq β κ) :
    Call Stub (ClntReq β κ) := ⟨p.clnt.nodes,(nextId p.idGen).1,stub,info,true⟩

def requestWrite (pb : Protobuf) (req : PbcRpcRequest) : Write :=
  ⟨some (packedBuffer pb.request req),pb.request.getPackedSize req + 8⟩

theorem stubWrites {pb : Protobuf} {p p' : Process Stub (ClntReq β κ)} {stub : Stub}
    {info : ClntReq β κ} (called : rpcClnt pb stub ⟨true,true,true⟩ p info = some p') :
    p'.clnt.writes = p.clnt.writes ++ [requestWrite pb
      (stub.request pb info (stubCall p stub info).id)] := by
  simp only [rpcClnt, step] at called
  split at called
  · cases Option.some.inj called
    rfl
  · cases called

def StatusReported (pb : Protobuf) (calloc : τ → Bool × τ) (svc : Registry τ) (stub : Stub)
    (info : ClntReq β κ) (callback : β) (w : τ) (msg : Bytes) (clnt : Clnt Stub (ClntReq β κ)) : Prop :=
  ∃ ret after status data, processResponse pb msg clnt = .ok (ret,after) ∧
    userCalls pb after.replies = userCalls pb clnt.replies ++ [⟨callback,info.ctx,status,data⟩] ∧
    ((status = 0 ∧ Answers calloc svc stub.service info.id w (· = 0)) ∨
      (status = -1 ∧ ¬ Answers calloc svc stub.service info.id w (· = 0)))

theorem answerKind {calloc : τ → Bool × τ} {svc : Registry τ} (n : Named svc) {service : Service}
    {id : BitVec 32} {w : τ} (answered : Answers calloc svc service id w (fun _ => True)) :
    Answers calloc svc service id w (· = 0) ↔ ¬ Answers calloc svc service id w (· ≠ 0) := by
  obtain ⟨s,member,served,memory,_⟩ := answered
  constructor
  · intro h h'
    obtain ⟨t,there,dispatch,_,zero⟩ := h
    obtain ⟨u,also,same,_,other⟩ := h'
    obtain rfl := List.inj_on_of_nodup_map n.once there also (dispatch.trans same.symm)
    exact other zero
  · intro never
    by_contra nonzero
    have status : (handlerRun s.dispatch s.scArgs id w).1 ≠ 0 := fun zero =>
      nonzero ⟨s,member,served,memory,zero⟩
    exact never ⟨s,member,served,memory,status⟩

theorem answersWeaken {calloc : τ → Bool × τ} {svc : Registry τ} {service : Service}
    {id : BitVec 32} {w : τ} {status : Int → Prop} (answered : Answers calloc svc service id w status) :
    Answers calloc svc service id w (fun _ => True) := by
  obtain ⟨s,member,served,memory,_⟩ := answered
  exact ⟨s,member,served,memory,trivial⟩

theorem reportedExactly {pb : Protobuf} {stub : Stub} {info : ClntReq β κ} {callback : β}
    {q : Process Stub (ClntReq β κ)} (there : (system pb).Reachable q) {c : Call Stub (ClntReq β κ)}
    (kept : c ∈ q.calls) (outstanding : c.node ∈ q.clnt.outstanding) (same : c.replymsg = stub)
    (own : c.ctx = info) {calloc : τ → Bool × τ} {svc : Registry τ} (n : Named svc) {w : τ}
    {result : Bytes} {status : Int} {data : Option ClntRsp}
    (replied : (replyCb pb stub info result 0).2 = [⟨callback,info.ctx,status,data⟩])
    (outcome : (status = 0 ∧ Answers calloc svc stub.service info.id w (fun _ => True)) ∨
      (status = -1 ∧ ¬ Answers calloc svc stub.service info.id w (fun _ => True)))
    {msg : Bytes} {size : Nat}
    (read : readMessage pb.response msg = .ok (some ⟨c.id,result,none⟩,size)) :
    StatusReported pb calloc svc stub info callback w msg q.clnt ↔
      c.id.toNat < 2 ^ 31 ∧ ¬ Answers calloc svc stub.service info.id w (· ≠ 0) := by
  have completes := responseCompletes there kept outstanding read rfl
  have run : (replyCb pb c.replymsg c.ctx result 0).2 = [⟨callback,info.ctx,status,data⟩] := by
    rw [same, own, replied]
  have grown : userCalls pb (q.clnt.replies ++ [c.reply result]) =
      userCalls pb q.clnt.replies ++ [⟨callback,info.ctx,status,data⟩] := by
    rw [← run]
    simp [userCalls, Call.reply]
  constructor
  · intro h
    obtain ⟨_,after,status',data',processed,told,right⟩ := h
    have small : c.id.toNat < 2 ^ 31 := by
      by_contra large
      obtain ⟨l,i⟩ := issued there
      have below := Nat.lt_of_le_of_lt (i.drawn _ kept) i.below
      have dropped := responseDropped i ⟨c.id,result,none⟩ below (Nat.le_of_not_lt large)
      simp only [processResponse, read, bind, Except.bind] at processed
      rw [← (Prod.mk.inj (Except.ok.inj processed)).2, dropped] at told
      simp at told
    obtain ⟨_,_,again,_,replies⟩ := completes.mpr small
    rw [processed] at again
    rw [(Prod.mk.inj (Except.ok.inj again)).2, replies, grown] at told
    have calls := (List.cons.inj (List.append_cancel_left told)).1
    have statuses : status = status' := congrArg UserCall.msg calls
    refine ⟨small,?_⟩
    intro refused
    rcases outcome with ⟨zero,answered⟩ | ⟨_,unanswered⟩
    · rcases right with ⟨_,good⟩ | ⟨failed,_⟩
      · exact (answerKind n answered).mp good refused
      · rw [← statuses, zero] at failed
        contradiction
    · exact unanswered (answersWeaken refused)
  · intro h
    obtain ⟨small,never⟩ := h
    obtain ⟨ret,after,processed,_,replies⟩ := completes.mpr small
    refine ⟨ret,after,status,data,processed,by rw [replies, grown],?_⟩
    rcases outcome with ⟨zero,answered⟩ | ⟨failed,unanswered⟩
    · exact Or.inl ⟨zero,(answerKind n answered).mpr never⟩
    · exact Or.inr ⟨failed,fun answered => unanswered (answersWeaken answered)⟩

theorem stubCallKept {pb : Protobuf} {stub : Stub} {info : ClntReq β κ}
    {p p' q : Process Stub (ClntReq β κ)} (reached : (system pb).Reachable p)
    (called : rpcClnt pb stub ⟨true,true,true⟩ p info = some p')
    (later : List (Event Stub (ClntReq β κ))) (ran : (system pb).run p' later = some q) :
    (system pb).Reachable q ∧ stubCall p stub info ∈ q.calls := by
  have taken : (system pb).step p
      (.call ⟨true,true,true⟩ stub.method (stub.params pb info) stub info) = some p' := called
  obtain ⟨origin,events,started,before⟩ := reached.next taken
  refine ⟨⟨origin,events ++ later,started,by rw [System.runAppend, before]; exact ran⟩,callsKept ran ?_⟩
  obtain ⟨_,_,⟨_,unmade,_⟩ | ⟨c,call,_,_,calls,_⟩⟩ := stepCall called
  · cases unmade
  · rw [calls, call]
    exact List.mem_append_right _ List.mem_cons_self

/- The status of a call reaches the caller's callback exactly when the call's id fits its entry
and no handler of the service refused the request with a reply in memory. -/
theorem statusReachesCaller {pb : Protobuf} (law : pb.Lawful) (stub : Stub) (info : ClntReq β κ)
    (callback : β) (given : info.pfnCallback = some callback) {p p' q : Process Stub (ClntReq β κ)}
    (reached : (system pb).Reachable p) (called : rpcClnt pb stub ⟨true,true,true⟩ p info = some p')
    (later : List (Event Stub (ClntReq β κ))) (ran : (system pb).run p' later = some q)
    (outstanding : (stubCall p stub info).node ∈ q.clnt.outstanding) (calloc : τ → Bool × τ)
    {svc : Registry τ} (built : Built svc) (w : Daemon τ) :
    p'.clnt.writes = p.clnt.writes ++ [requestWrite pb
      (stub.request pb info (stubCall p stub info).id)] ∧
    ∃ ret rsp after,
      rpcInvokeCall (platform pb calloc) svc (some (stub.request pb info (stubCall p stub info).id))
        .init w = .ok (ret,rsp,after) ∧
      ∀ msg size, readMessage pb.response msg = .ok (some rsp,size) →
        (StatusReported pb calloc svc stub info callback w.state msg q.clnt ↔
          (stubCall p stub info).id.toNat < 2 ^ 31 ∧
            ¬ Answers calloc svc stub.service info.id w.state (· ≠ 0)) := by
  obtain ⟨ret,result,after,status,data,invoked,replied,outcome⟩ :=
    invokeStub calloc law built.named stub given (stubCall p stub info).id w
  obtain ⟨there,kept⟩ := stubCallKept reached called later ran
  exact ⟨stubWrites called,ret,_,after,invoked,fun msg size read =>
    reportedExactly there kept outstanding rfl rfl built.named replied outcome read⟩

def demoInfo : ClntReq Unit Nat := ⟨5,7,some ()⟩
def demoReached : Process Stub (ClntReq Unit Nat) :=
  ⟨1,⟨[⟨0,1,.demo,demoInfo⟩],1,[requestWrite wire (Stub.demo.request wire demoInfo 1)],[],[]⟩,
    [stubCall .new .demo demoInfo]⟩

theorem demoCalled : rpcClnt wire .demo ⟨true,true,true⟩ .new demoInfo = some demoReached := rfl

theorem demoOutstanding : (stubCall .new .demo demoInfo).node ∈ demoReached.clnt.outstanding :=
  List.mem_cons_self

def demoAnswer : PbcRpcResponse := ⟨1,wire.demoRsp.pack ⟨5,3,4096⟩,none⟩

theorem demoStatusReported :
    rpcInvokeCall (platform wire alwaysMemory) demoRegistry (some (Stub.demo.request wire demoInfo 1)) .init ⟨(),[]⟩ =
      .ok (0,demoAnswer,⟨(),[.demo]⟩) ∧
    StatusReported wire alwaysMemory demoRegistry .demo demoInfo () () (frame (wire.response.pack demoAnswer))
      demoReached.clnt := by
  obtain ⟨_,ret,rsp,after,invoked,reported⟩ := statusReachesCaller wireLawful .demo demoInfo () rfl
    ⟨_,[],rfl,rfl⟩ demoCalled [] rfl demoOutstanding alwaysMemory demoBuilt ⟨(),[]⟩
  have served : rpcInvokeCall (platform wire alwaysMemory) demoRegistry (some (Stub.demo.request wire demoInfo 1)) .init
      ⟨(),[]⟩ = .ok (0,demoAnswer,⟨(),[.demo]⟩) := rfl
  obtain ⟨_,rest⟩ := Prod.mk.inj (Except.ok.inj (served.symm.trans invoked))
  obtain ⟨rfl,_⟩ := Prod.mk.inj rest
  refine ⟨served,(reported (frame (wire.response.pack demoAnswer)) 19 rfl).mpr ⟨by decide,?_⟩⟩
  intro h
  obtain ⟨s,member,_,_,nonzero⟩ := h
  obtain rfl := List.mem_singleton.mp member
  exact nonzero rfl

def failingDemo : Handler Unit .demo := ⟨fun _ w => (1,⟨0,0⟩,w)⟩
def failingRegistry : Registry Unit := (serviceDemoRegister true [] failingDemo).2

/- The handler returns 1, and the caller's callback is told 0. -/
theorem failureUnreported : ∃ result, rpcInvokeCall (platform wire alwaysMemory) failingRegistry
      (some (Stub.demo.request wire demoInfo 1)) .init ⟨(),[]⟩ = .ok (0,⟨1,result,none⟩,⟨(),[.demo]⟩) ∧
    readMessage wire.response (frame (wire.response.pack ⟨1,result,none⟩)) =
      .ok (some ⟨1,result,none⟩,18) ∧
    ¬ StatusReported wire alwaysMemory failingRegistry .demo demoInfo () ()
      (frame (wire.response.pack ⟨1,result,none⟩)) demoReached.clnt := by
  refine ⟨wire.demoRsp.pack ⟨5,0,0⟩,rfl,rfl,?_⟩
  have built : Built failingRegistry := .demo true failingDemo .empty
  obtain ⟨there,kept⟩ := stubCallKept ⟨_,[],rfl,rfl⟩ demoCalled [] rfl
  have answered : Answers alwaysMemory failingRegistry .demo demoInfo.id () (fun _ => True) :=
    ⟨_,List.mem_cons_self,rfl,rfl,trivial⟩
  have refused : Answers alwaysMemory failingRegistry .demo demoInfo.id () (· ≠ 0) :=
    ⟨_,List.mem_cons_self,rfl,rfl,by decide⟩
  have replied : (replyCb wire .demo demoInfo (wire.demoRsp.pack ⟨5,0,0⟩) 0).2 =
      [⟨(),7,0,some (.demo ⟨5,0,0⟩)⟩] := rfl
  have read : readMessage wire.response (frame (wire.response.pack
      ⟨1,wire.demoRsp.pack ⟨5,0,0⟩,none⟩)) = .ok (some ⟨1,wire.demoRsp.pack ⟨5,0,0⟩,none⟩,18) := rfl
  intro reported
  have exactly := (reportedExactly there kept demoOutstanding rfl rfl built.named replied
    (Or.inl ⟨rfl,answered⟩) read).mp reported
  exact exactly.2 refused

def Passed (pb : Protobuf) (calloc : τ → Bool × τ) (svc : Registry τ) (stub : Stub)
    (priv : ClntReq β κ) (callback : β) (callId : BitVec 64) (w : Daemon τ) (holds : ClntRsp → Prop) :
    Prop :=
  ∃ result after data,
    rpcInvokeCall (platform pb calloc) svc (some (stub.request pb priv callId)) .init w =
      .ok (0,⟨callId,result,none⟩,after) ∧
    replyCb pb stub priv result 0 = (0,[⟨callback,priv.ctx,0,some data⟩]) ∧ holds data

theorem passedExactly {pb : Protobuf} {calloc : τ → Bool × τ} {svc : Registry τ} (n : Named svc)
    (stub : Stub) {s : Callout Service (Handler τ)} (member : s ∈ svc) (served : s.dispatch = stub.service)
    {priv : ClntReq β κ} {callback : β} (callId : BitVec 64) {w after : Daemon τ} {result : Bytes}
    {data : ClntRsp}
    (ran : (platform pb calloc).exec s.dispatch s.scArgs (stub.params pb priv) w = .ok (0,result,after))
    (replied : replyCb pb stub priv result 0 = (0,[⟨callback,priv.ctx,0,some data⟩]))
    (holds : ClntRsp → Prop) :
    Passed pb calloc svc stub priv callback callId w holds ↔ holds data := by
  have invoked := invokeRegistered n member served callId ran
  constructor
  · intro h
    obtain ⟨result',after',data',invoked',replied',held⟩ := h
    rw [invoked] at invoked'
    have results : result = result' := congrArg PbcRpcResponse.result
      (Prod.mk.inj (Prod.mk.inj (Except.ok.inj invoked')).2).1
    rw [← results, replied] at replied'
    have calls := (List.cons.inj (Prod.mk.inj replied').2).1
    rwa [Option.some.inj (congrArg UserCall.info calls)]
  · intro held
    exact ⟨result,after,data,invoked,replied,held⟩

section
variable {pb : Protobuf} (law : pb.Lawful) {calloc : τ → Bool × τ} {svc : Registry τ} (built : Built svc)
  {priv : ClntReq β κ} {callback : β} (given : priv.pfnCallback = some callback) (callId : BitVec 64)
  (w : Daemon τ) {prog vers : BitVec 32} {name : Option CString}
include law built given

theorem demoPassed (h : Handler τ .demo) (member : (⟨prog,vers,name,.demo,h⟩ : Callout _ _) ∈ svc)
    (memory : (calloc (h.pfnCallback ⟨priv.id⟩ w.state).2.2).1 = true) :
    Passed pb calloc svc .demo priv callback callId w (fun data => ∃ info, data = .demo info ∧
        info.id = priv.id ∧ info.count = (h.pfnCallback ⟨priv.id⟩ w.state).2.1.cnt ∧
        info.memory.toNat = (h.pfnCallback ⟨priv.id⟩ w.state).2.1.mem.toNat) ↔
      (h.pfnCallback ⟨priv.id⟩ w.state).2.1.mem.toNat < 2 ^ 32 := by
  obtain ⟨result,after,ran,replied⟩ := demoReply law given h w memory
  rw [passedExactly built.named .demo member rfl callId ran replied]
  constructor
  · intro h
    obtain ⟨info,same,_,_,whole⟩ := h
    cases ClntRsp.demo.inj same
    rw [← whole]
    exact BitVec.isLt _
  · intro small
    refine ⟨_,rfl,rfl,rfl,?_⟩
    rw [BitVec.toNat_setWidth, Nat.mod_eq_of_lt small]

theorem vmonPassed (h : Handler τ .vmon) (member : (⟨prog,vers,name,.vmon,h⟩ : Callout _ _) ∈ svc)
    (memory : (calloc (h.pfnCallback ⟨priv.id⟩ w.state).2.2).1 = true) :
    Passed pb calloc svc .vmon priv callback callId w
      (· = .vmon ⟨priv.id,(h.pfnCallback ⟨priv.id⟩ w.state).2.1.num⟩) := by
  obtain ⟨result,after,ran,replied⟩ := vmonReply law given h w memory
  exact (passedExactly built.named .vmon member rfl callId ran replied _).mpr rfl

theorem nodeStatePassed (h : Handler τ .nodeState)
    (member : (⟨prog,vers,name,.nodeState,h⟩ : Callout _ _) ∈ svc)
    (memory : (calloc (h.pfnCallback ⟨priv.id⟩ w.state).2.2).1 = true) (text : CString)
    (named : (h.pfnCallback ⟨priv.id⟩ w.state).2.1.name = some text) :
    Passed pb calloc svc .nodeState priv callback callId w (· = .nodeState ⟨priv.id,
      (h.pfnCallback ⟨priv.id⟩ w.state).2.1.index,text,
      (h.pfnCallback ⟨priv.id⟩ w.state).2.1.count,(h.pfnCallback ⟨priv.id⟩ w.state).2.1.uplink,
      (h.pfnCallback ⟨priv.id⟩ w.state).2.1.downlink,(h.pfnCallback ⟨priv.id⟩ w.state).2.1.memory,
      (h.pfnCallback ⟨priv.id⟩ w.state).2.1.cpu⟩) := by
  obtain ⟨result,after,ran,replied⟩ := nodeStateReply law given h w memory
  refine (passedExactly built.named .nodeState member rfl callId ran replied _).mpr ?_
  rw [named]
  rfl
end

/- The fields of the three services: vmon and node_state always carry what the handler stored,
demo exactly when its memory figure fits 32 bits. -/
theorem fieldFidelity {pb : Protobuf} (law : pb.Lawful) (calloc : τ → Bool × τ) {svc : Registry τ}
    (built : Built svc) (priv : ClntReq β κ) (callback : β) (given : priv.pfnCallback = some callback)
    (callId : BitVec 64) (w : Daemon τ) :
    (∀ (prog vers : BitVec 32) (name : Option CString) (h : Handler τ .demo),
      (⟨prog,vers,name,.demo,h⟩ : Callout _ _) ∈ svc →
      ∀ status rsp after, h.pfnCallback ⟨priv.id⟩ w.state = (status,rsp,after) →
        (calloc after).1 = true →
        (Passed pb calloc svc .demo priv callback callId w (fun data => ∃ info, data = .demo info ∧
            info.id = priv.id ∧ info.count = rsp.cnt ∧ info.memory.toNat = rsp.mem.toNat) ↔
          rsp.mem.toNat < 2 ^ 32)) ∧
    (∀ (prog vers : BitVec 32) (name : Option CString) (h : Handler τ .vmon),
      (⟨prog,vers,name,.vmon,h⟩ : Callout _ _) ∈ svc →
      ∀ status rsp after, h.pfnCallback ⟨priv.id⟩ w.state = (status,rsp,after) →
        (calloc after).1 = true →
        Passed pb calloc svc .vmon priv callback callId w (· = .vmon ⟨priv.id,rsp.num⟩)) ∧
    ∀ (prog vers : BitVec 32) (name : Option CString) (h : Handler τ .nodeState),
      (⟨prog,vers,name,.nodeState,h⟩ : Callout _ _) ∈ svc →
      ∀ status rsp after, h.pfnCallback ⟨priv.id⟩ w.state = (status,rsp,after) →
        (calloc after).1 = true → ∀ text, rsp.name = some text →
        Passed pb calloc svc .nodeState priv callback callId w (· = .nodeState ⟨priv.id,rsp.index,
          text,rsp.count,rsp.uplink,rsp.downlink,rsp.memory,rsp.cpu⟩) := by
  refine ⟨?_,?_,?_⟩
  · intro prog vers name h member status rsp after stored memory
    have passed := demoPassed law built given callId w h member (by rw [stored]; exact memory)
    rwa [stored] at passed
  · intro prog vers name h member status rsp after stored memory
    have passed := vmonPassed law built given callId w h member (by rw [stored]; exact memory)
    rwa [stored] at passed
  · intro prog vers name h member status rsp after stored memory text named
    have passed := nodeStatePassed law built given callId w h member (by rw [stored]; exact memory)
      text (by rw [stored]; exact named)
    rwa [stored] at passed

def fixedVmon : Handler Unit .vmon := ⟨fun _ w => (0,⟨11⟩,w)⟩
def fixedNodeState : Handler Unit .nodeState :=
  ⟨fun _ w => (0,⟨0,1,some (cstr "node"),2,10,20,30,40⟩,w)⟩
def threeServices : Registry Unit := (serviceNodeStateRegister true
  (serviceVmonRegister true demoRegistry fixedVmon).2 fixedNodeState).2

theorem threeBuilt : Built threeServices := .nodeState true _ (.vmon true _ demoBuilt)

theorem threeServicesPassed :
    Passed wire alwaysMemory threeServices .demo demoInfo () 1 ⟨(),[]⟩ (fun data =>
      ∃ info, data = .demo info ∧ info.id = 5 ∧ info.count = 3 ∧ info.memory.toNat = 4096) ∧
    Passed wire alwaysMemory threeServices .vmon demoInfo () 1 ⟨(),[]⟩ (· = .vmon ⟨5,11⟩) ∧
    Passed wire alwaysMemory threeServices .nodeState demoInfo () 1 ⟨(),[]⟩
      (· = .nodeState ⟨5,1,cstr "node",2,10,20,30,40⟩) := by
  obtain ⟨demo,vmon,nodeState⟩ := fieldFidelity wireLawful alwaysMemory threeBuilt demoInfo () rfl 1
    ⟨(),[]⟩
  exact ⟨(demo _ _ _ fixedDemo (List.mem_cons_of_mem _ (List.mem_cons_of_mem _ List.mem_cons_self))
      0 ⟨3,4096⟩ () rfl rfl).mpr (by decide),
    vmon _ _ _ fixedVmon (List.mem_cons_of_mem _ List.mem_cons_self) 0 ⟨11⟩ () rfl rfl,
    nodeState _ _ _ fixedNodeState List.mem_cons_self 0 _ () rfl rfl (cstr "node") rfl⟩

def largeDemo : Handler Unit .demo := ⟨fun _ w => (0,⟨3,4294967296⟩,w)⟩
def largeRegistry : Registry Unit := (serviceDemoRegister true [] largeDemo).2

theorem demoMemoryCut : ¬ Passed wire alwaysMemory largeRegistry .demo demoInfo () 1 ⟨(),[]⟩
    (fun data => ∃ info, data = .demo info ∧ info.id = 5 ∧ info.count = 3 ∧
      info.memory.toNat = 4294967296) := by
  have built : Built largeRegistry := .demo true largeDemo .empty
  intro passed
  have small := (demoPassed wireLawful built rfl 1 ⟨(),[]⟩ largeDemo List.mem_cons_self rfl).mp passed
  revert small
  decide

end VmpRl.ServiceClients
