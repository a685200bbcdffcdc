import VmpRl.Base.Lifecycle
import VmpRl.Base.Traced
import VmpRl.Services

/-! `process_request` with the heap blocks that it, the dispatcher, the executor and the reply writer take
and give back: the buffer of the Result is the one that nobody frees. -/
namespace VmpRl.RequestBlocks
open Octets CRuntime PbrpcMessages PbrpcXdr PbrpcService PbrpcWire Services Lifecycle Tracing Traced

inductive Block where
  | envelope
  | params
  | result
  | reply
  deriving DecidableEq, Repr

abbrev Owning := Traced (Op Block) Stop

def taken (block : Block) (there : Bool) : Owning Unit := ⟨if there then [.acquire block] else [],.ok ()⟩
def touched (block : Block) (there : Bool) : Owning Unit := ⟨if there then [.use block] else [],.ok ()⟩

def freed (block : Block) (there : Bool) : Owning Unit := ⟨if there then [.release block] else [],.ok ()⟩

variable {τ : Type}

structure Stub (Q R SQ SR : Type) where
  service : Service
  req : Codec Q
  svcReq : Q → SQ
  rsp : Codec R
  pbcRsp : Q → SR → R

def demoStub (pb : Protobuf) : Stub PbcDemoReq PbcDemoRsp ServiceDemoReq ServiceDemoRsp :=
  ⟨.demo,pb.demoReq,fun req => ⟨req.id⟩,pb.demoRsp,fun req rsp => ⟨req.id,rsp.cnt,rsp.mem⟩⟩

def vmonStub (pb : Protobuf) : Stub PbcVmonReq PbcVmonRsp ServiceVmonReq ServiceVmonRsp :=
  ⟨.vmon,pb.vmonReq,fun req => ⟨req.id⟩,pb.vmonRsp,fun req rsp => ⟨req.id,rsp.num⟩⟩

def nodeStateStub (pb : Protobuf) :
    Stub PbcNodeStateReq PbcNodeStateRsp ServiceNodeStateReq ServiceNodeStateRsp :=
  ⟨.nodeState,pb.nodeStateReq,fun req => ⟨req.id⟩,pb.nodeStateRsp,
    fun req rsp => ⟨req.id,rsp.index,rsp.name.getD (cut []),rsp.count,rsp.uplink,rsp.downlink,rsp.memory,rsp.cpu⟩⟩

def registryStub (pb : Protobuf) :
    Stub PbcRegistryReq PbcRegistryRsp RpcServiceRegistryReq RpcServiceRegistryRsp :=
  ⟨.registry,pb.registryReq,fun req => ⟨req.sid,cut [],cut [],cut [],cut [],0,0,cut [],0⟩,pb.registryRsp,
    fun _ rsp => ⟨rsp.id,cut [],0,none⟩⟩

def stubExec {Q R SQ SR : Type} (stub : Stub Q R SQ SR) (calloc : τ → Bool × τ) (h : SvcHandler SQ SR τ)
    (params : Bytes) (w : Daemon τ) : Owning (Int × Bytes × Bool × Daemon τ) :=
  match stub.req.unpack params with
  | none => lift (.error .nullDeref)
  | some pbcReq => do
    taken .params true
    touched .params true
    let called := h.pfnCallback (stub.svcReq pbcReq) w.state
    let mem := calloc called.2.2
    let w : Daemon τ := ⟨mem.2,w.callbacks ++ [stub.service]⟩
    taken .result mem.1
    touched .result mem.1
    freed .params true
    pure (if mem.1 then (0,stub.rsp.pack (stub.pbcRsp pbcReq called.2.1),true,w) else (-1,[],false,w))

def exec (pb : Protobuf) (calloc : τ → Bool × τ) :
    (service : Service) → Handler τ service → Bytes → Daemon τ → Owning (Int × Bytes × Bool × Daemon τ)
  | .demo => stubExec (demoStub pb) calloc
  | .registry => stubExec (registryStub pb) calloc
  | .vmon => stubExec (vmonStub pb) calloc
  | .nodeState => stubExec (nodeStateStub pb) calloc

def rpcInvokeCall (pb : Protobuf) (calloc : τ → Bool × τ) (svc : Registry τ) (reqhdr : Option PbcRpcRequest)
    (rsphdr : PbcRpcResponse) (w : Daemon τ) : Owning (Int × PbcRpcResponse × Bool × Daemon τ) :=
  match reqhdr with
  | none => lift (.error .nullDeref)
  | some req => do
    touched .envelope true
    match req.params with
    | none => pure (-1,rsphdr,false,w)
    | some params => do
      match ← lift (methodLookup req.method svc) with
      | none => pure (-1,{rsphdr with id := req.id},false,w)
      | some s => do
        let r ← exec pb calloc s.dispatch s.scArgs params w
        pure (r.1,{rsphdr with id := req.id, result := r.2.1},r.2.2)

def rpcWriteReply (pb : Protobuf) (calloc data : Bool) (rsphdr : PbcRpcResponse) : Owning (Int × Option Bytes) := do
  taken .reply calloc
  touched .result (calloc && data)
  pure (PbrpcService.rpcWriteReply pb calloc rsphdr)

def processRequest (pb : Protobuf) (calloc : τ → Bool × τ) (svc : Registry τ) (msg : Bytes)
    (c : Conn (Daemon τ)) : Owning (Int × Conn (Daemon τ)) := do
  let read ← lift (readMessage pb.request msg)
  taken .envelope read.1.isSome
  let invoked ← rpcInvokeCall pb calloc svc read.1 .init c.world
  let mem := (platform pb calloc).calloc invoked.2.2.2
  let written ← rpcWriteReply pb mem.1 invoked.2.2.1 invoked.2.1
  touched .reply mem.1
  freed .envelope read.1.isSome
  freed .reply mem.1
  pure (toInt read.2,⟨mem.2,c.reads ++ [read.1],c.writes ++ [⟨written.2,toSize written.1⟩]⟩)

def stubMemory {Q R SQ SR : Type} (stub : Stub Q R SQ SR) (calloc : τ → Bool × τ) (h : SvcHandler SQ SR τ)
    (params : Bytes) (w : Daemon τ) : Bool := match stub.req.unpack params with
  | none => false
  | some pbcReq => (calloc (h.pfnCallback (stub.svcReq pbcReq) w.state).2.2).1

def execMemory (pb : Protobuf) (calloc : τ → Bool × τ) :
    (service : Service) → Handler τ service → Bytes → Daemon τ → Bool
  | .demo => stubMemory (demoStub pb) calloc
  | .registry => stubMemory (registryStub pb) calloc
  | .vmon => stubMemory (vmonStub pb) calloc
  | .nodeState => stubMemory (nodeStateStub pb) calloc

def executed (pb : Protobuf) (calloc : τ → Bool × τ) (svc : Registry τ) (reqhdr : Option PbcRpcRequest)
    (w : Daemon τ) : Option Bool := match reqhdr with
  | none => none
  | some req => match req.params with
    | none => none
    | some params => match methodLookup req.method svc with
      | .ok (some s) => some (execMemory pb calloc s.dispatch s.scArgs params w)
      | _ => none

def execOps (mem : Bool) : List (Op Block) :=
  [.acquire .params,.use .params] ++ (if mem then [.acquire .result,.use .result] else []) ++ [.release .params]

def requestOps (executed : Option Bool) (mem : Bool) : List (Op Block) :=
  [.acquire .envelope,.use .envelope] ++ (executed.map execOps).getD [] ++
    (if mem then [.acquire .reply] ++ (if executed = some true then [.use .result] else []) ++ [.use .reply] else []) ++
    [.release .envelope] ++ (if mem then [.release .reply] else [])

section Executor
variable {Q R SQ SR : Type} (stub : Stub Q R SQ SR) (calloc : τ → Bool × τ) (h : SvcHandler SQ SR τ)
  (params : Bytes) (w : Daemon τ)

theorem stubErased : (stubExec stub calloc h params w).result.map (fun r => (r.1,r.2.1,r.2.2.2)) =
    serviceExec stub.service stub.req stub.svcReq stub.rsp stub.pbcRsp calloc h params w := by
  unfold stubExec serviceExec
  cases stub.req.unpack params with
  | none => rfl
  | some pbcReq =>
    show Except.ok _ = Except.ok _
    cases (calloc (h.pfnCallback (stub.svcReq pbcReq) w.state).2.2).1 with
    | true => rfl
    | false => rfl

theorem stubEnds {r : Int × Bytes × Bool × Daemon τ} (ran : (stubExec stub calloc h params w).result = .ok r) :
    (stubExec stub calloc h params w).ops = execOps (stubMemory stub calloc h params w) ∧
      r.2.2.1 = stubMemory stub calloc h params w := by
  unfold stubExec at ran ⊢
  unfold stubMemory
  cases unpacked : stub.req.unpack params with
  | none =>
    rw [unpacked] at ran
    cases ran
  | some pbcReq =>
    rw [unpacked] at ran
    cases Except.ok.inj ran
    dsimp only
    cases (calloc (h.pfnCallback (stub.svcReq pbcReq) w.state).2.2).1 with
    | true => exact ⟨rfl,rfl⟩
    | false => exact ⟨rfl,rfl⟩

end Executor

section Request
variable (pb : Protobuf) (calloc : τ → Bool × τ) (svc : Registry τ)

theorem execErased (service : Service) (args : Handler τ service) (params : Bytes) (w : Daemon τ) :
    (exec pb calloc service args params w).result.map (fun r => (r.1,r.2.1,r.2.2.2)) =
      (platform pb calloc).exec service args params w := by
  cases service with
  | demo => exact stubErased (demoStub pb) calloc args params w
  | registry => exact stubErased (registryStub pb) calloc args params w
  | vmon => exact stubErased (vmonStub pb) calloc args params w
  | nodeState => exact stubErased (nodeStateStub pb) calloc args params w

theorem execEnds (service : Service) (args : Handler τ service) (params : Bytes) (w : Daemon τ)
    {r : Int × Bytes × Bool × Daemon τ} (ran : (exec pb calloc service args params w).result = .ok r) :
    (exec pb calloc service args params w).ops = execOps (execMemory pb calloc service args params w) ∧
      r.2.2.1 = execMemory pb calloc service args params w := by
  cases service with
  | demo => exact stubEnds (demoStub pb) calloc args params w ran
  | registry => exact stubEnds (registryStub pb) calloc args params w ran
  | vmon => exact stubEnds (vmonStub pb) calloc args params w ran
  | nodeState => exact stubEnds (nodeStateStub pb) calloc args params w ran

theorem invokeErased (reqhdr : Option PbcRpcRequest) (rsphdr : PbcRpcResponse) (w : Daemon τ) :
    (rpcInvokeCall pb calloc svc reqhdr rsphdr w).result.map (fun r => (r.1,r.2.1,r.2.2.2)) =
      PbrpcService.rpcInvokeCall (platform pb calloc) svc reqhdr rsphdr w := by
  cases reqhdr with
  | none => rfl
  | some req =>
    unfold rpcInvokeCall PbrpcService.rpcInvokeCall
    cases given : req.params with
    | none =>
      simp only [given]
      rfl
    | some params =>
      simp only [given]
      cases methodLookup req.method svc with
      | error stop => rfl
      | ok found =>
        cases found with
        | none => rfl
        | some s =>
          show (exec pb calloc s.dispatch s.scArgs params w >>= fun r => pure _).result.map _ =
            ((platform pb calloc).exec s.dispatch s.scArgs params w).bind _
          rw [← execErased, bindResult]
          cases (exec pb calloc s.dispatch s.scArgs params w).result with
          | error stop => rfl
          | ok r => rfl

theorem invokeEnds {reqhdr : Option PbcRpcRequest} {rsphdr : PbcRpcResponse} {w : Daemon τ}
    {r : Int × PbcRpcResponse × Bool × Daemon τ}
    (ran : (rpcInvokeCall pb calloc svc reqhdr rsphdr w).result = .ok r) :
    reqhdr.isSome = true ∧ (rpcInvokeCall pb calloc svc reqhdr rsphdr w).ops =
      .use .envelope :: ((executed pb calloc svc reqhdr w).map execOps).getD [] ∧
    r.2.2.1 = (executed pb calloc svc reqhdr w == some true) := by
  cases reqhdr with
  | none => cases ran
  | some req =>
    refine ⟨rfl,?_⟩
    unfold rpcInvokeCall at ran ⊢
    unfold executed
    cases given : req.params with
    | none =>
      simp only [given] at ran ⊢
      cases Except.ok.inj ran
      exact ⟨rfl,rfl⟩
    | some params =>
      simp only [given] at ran ⊢
      cases looked : methodLookup req.method svc with
      | error stop =>
        rw [looked] at ran
        cases ran
      | ok found =>
        rw [looked] at ran
        cases found with
        | none =>
          cases Except.ok.inj ran
          exact ⟨rfl,rfl⟩
        | some s =>
          change (exec pb calloc s.dispatch s.scArgs params w >>= fun r =>
            pure (r.1,{rsphdr with id := req.id, result := r.2.1},r.2.2)).result = .ok r at ran
          obtain ⟨e,done,same,ops⟩ := bindEnds ran
          obtain ⟨blocks,data⟩ := execEnds pb calloc s.dispatch s.scArgs params w done
          cases Except.ok.inj same
          rw [blocks] at ops
          refine ⟨(congrArg (List.cons (Op.use Block.envelope)) ops).trans ?_,data.trans ?_⟩
          · exact congrArg (List.cons (Op.use Block.envelope)) (List.append_nil _)
          · dsimp only
            cases execMemory pb calloc s.dispatch s.scArgs params w with
            | true => rfl
            | false => rfl

theorem writeEnds (mem data : Bool) (rsphdr : PbcRpcResponse) :
    rpcWriteReply pb mem data rsphdr =
      ⟨(if mem then [.acquire .reply] else []) ++ (if mem && data then [.use .result] else []),
        .ok (PbrpcService.rpcWriteReply pb mem rsphdr)⟩ := by
  show (⟨(taken .reply mem).ops ++ ((touched .result (mem && data)).ops ++ []),_⟩ : Owning (Int × Option Bytes)) = _
  rw [List.append_nil]
  rfl

theorem requestErased (msg : Bytes) (c : Conn (Daemon τ)) :
    (processRequest pb calloc svc msg c).result =
      PbrpcService.processRequest pb (platform pb calloc) svc msg c := by
  unfold processRequest PbrpcService.processRequest serveRequest
  rw [bindResult, liftResult]
  cases readMessage pb.request msg with
  | error stop => rfl
  | ok read =>
    show (rpcInvokeCall pb calloc svc read.1 .init c.world >>= fun invoked => _).result = _
    rw [bindResult]
    have erased := invokeErased pb calloc svc read.1 .init c.world
    cases ran : (rpcInvokeCall pb calloc svc read.1 .init c.world).result with
    | error stop =>
      rw [ran] at erased
      show _ = (PbrpcService.rpcInvokeCall (platform pb calloc) svc read.1 .init c.world).bind _ >>= _
      rw [← erased]
      rfl
    | ok r =>
      rw [ran] at erased
      show _ = ((PbrpcService.rpcInvokeCall (platform pb calloc) svc read.1 .init c.world).bind _).bind _
      rw [← erased]
      rfl

def requestRead (pb : Protobuf) (msg : Bytes) : Option PbcRpcRequest := match readMessage pb.request msg with
  | .ok read => read.1
  | .error _ => none

theorem requestEnds {msg : Bytes} {c : Conn (Daemon τ)} {out : Int × Conn (Daemon τ)}
    (ran : (processRequest pb calloc svc msg c).result = .ok out) :
    ∃ mem, (processRequest pb calloc svc msg c).ops =
      requestOps (executed pb calloc svc (requestRead pb msg) c.world) mem := by
  unfold processRequest at ran ⊢
  unfold requestRead
  obtain ⟨read,was,ran,ops⟩ := bindEnds ran
  rw [ops]
  rw [liftResult] at was
  simp only [was]
  obtain ⟨_,_,ran,ops⟩ := bindEnds ran
  rw [ops]
  obtain ⟨invoked,was,ran,ops⟩ := bindEnds ran
  obtain ⟨present,blocks,data⟩ := invokeEnds pb calloc svc was
  rw [ops, blocks]
  refine ⟨((platform pb calloc).calloc invoked.2.2.2).1,?_⟩
  dsimp only
  rw [writeEnds, data, present]
  cases ((platform pb calloc).calloc invoked.2.2.2).1 with
  | true =>
    cases executed pb calloc svc read.1 c.world with
    | none => rfl
    | some mem =>
      cases mem with
      | true => rfl
      | false => rfl
  | false =>
    cases executed pb calloc svc read.1 c.world with
    | none => rfl
    | some mem =>
      cases mem with
      | true => rfl
      | false => rfl

theorem requestDisciplined (executed : Option Bool) (mem : Bool) : Disciplined (requestOps executed mem) := by
  cases executed with
  | none => cases mem <;> decide
  | some packed => cases packed <;> cases mem <;> decide

theorem requestLeft (executed : Option Bool) (mem : Bool) (block : Block) :
    lifeOf block (requestOps executed mem) = .live ↔ block = .result ∧ executed = some true := by
  cases executed with
  | none => cases mem <;> cases block <;> decide
  | some packed => cases packed <;> cases mem <;> cases block <;> decide

theorem blocksReleased {msg : Bytes} {c : Conn (Daemon τ)} (ends : Returns (processRequest pb calloc svc msg c).result)
    {n : Nat} {trace : List (Op (Nat × Block))} (fresh : ∀ block, lifeOf (n,block) trace = .absent) :
    NoneSurvives trace ((processRequest pb calloc svc msg c).ops.map (Op.within n)) ↔
      executed pb calloc svc (requestRead pb msg) c.world ≠ some true := by
  obtain ⟨out,ran⟩ := ends
  obtain ⟨mem,ops⟩ := requestEnds pb calloc svc ran
  have left := requestLeft (executed pb calloc svc (requestRead pb msg) c.world) mem
  rw [ops, noneSurvivesWithin fresh]
  constructor
  · intro h packed
    exact h.2 .result ((left .result).mpr ⟨rfl,packed⟩)
  · intro unpacked
    refine ⟨requestDisciplined _ mem,?_⟩
    intro block live
    exact unpacked ((left block).mp live).2

end Request

theorem requestReadFrame (pb : Protobuf) {body : Bytes} (fits : body.length < 2 ^ 64) (rest : Bytes) :
    requestRead pb (frame body ++ rest) = pb.request.unpack body := by
  simp only [requestRead, readFrame pb.request fits rest]

theorem requestReturns (pb : Protobuf) (calloc : τ → Bool × τ) (svc : Registry τ) {body : Bytes}
    (fits : body.length < 2 ^ 64) (rest : Bytes) (c : Conn (Daemon τ))
    (invoked : Returns (PbrpcService.rpcInvokeCall (platform pb calloc) svc (pb.request.unpack body) .init c.world)) :
    Returns (processRequest pb calloc svc (frame body ++ rest) c).result := by
  rw [requestErased]
  exact (processReturns pb (platform pb calloc) svc fits rest c).mpr invoked

def demoRequest : PbcRpcRequest := ⟨9,cstr "Loader.demo",some (wire.demoReq.pack ⟨5⟩)⟩

theorem demoUnpacked : wire.request.unpack (demoBody (wire.demoReq.pack ⟨5⟩)) = some demoRequest :=
  wireLawful.request.unpackPack demoRequest

theorem unknownReleased : NoneSurvives []
    ((processRequest wire alwaysMemory [] (frame (demoBody (wire.demoReq.pack ⟨5⟩)) ++ []) idle).ops.map
      (Op.within 0)) := by
  have ends : Returns (processRequest wire alwaysMemory []
      (frame (demoBody (wire.demoReq.pack ⟨5⟩)) ++ []) idle).result := by
    refine requestReturns wire alwaysMemory [] (by decide) [] idle ?_
    rw [demoUnpacked]
    exact ⟨_,rfl⟩
  refine (blocksReleased wire alwaysMemory [] ends (fun block => rfl)).mpr ?_
  rw [requestReadFrame wire (by decide) [], demoUnpacked]
  decide

theorem demoPacked : executed wire alwaysMemory demoRegistry (some demoRequest) idle.world = some true := by
  have asked : (demoStub wire).req.unpack (wire.demoReq.pack ⟨5⟩) = some ⟨5⟩ := wireLawful.demoReq.unpackPack ⟨5⟩
  show some (stubMemory (demoStub wire) alwaysMemory fixedDemo (wire.demoReq.pack ⟨5⟩) _) = some true
  rw [stubMemory, asked]
  rfl

theorem resultStays : ¬ NoneSurvives []
    ((processRequest wire alwaysMemory demoRegistry (frame (demoBody (wire.demoReq.pack ⟨5⟩)) ++ []) idle).ops.map
      (Op.within 0)) := by
  have ends : Returns (processRequest wire alwaysMemory demoRegistry
      (frame (demoBody (wire.demoReq.pack ⟨5⟩)) ++ []) idle).result := by
    refine requestReturns wire alwaysMemory demoRegistry (by decide) [] idle ?_
    have valid : Service.demo.Accepts wire (wire.demoReq.pack ⟨5⟩) := by
      show wire.demoReq.unpack (wire.demoReq.pack ⟨5⟩) ≠ none
      rw [wireLawful.demoReq.unpackPack]
      exact Option.some_ne_none _
    obtain ⟨value,ran⟩ := platformEnds alwaysMemory fixedDemo valid idle.world
    have found : methodLookup (cstr "Loader.demo") demoRegistry = .ok (some _) :=
      demoBuilt.named.lookup List.mem_cons_self
    rw [demoUnpacked]
    exact ⟨_,by simp only [PbrpcService.rpcInvokeCall, demoRequest, found, ran, Bind.bind, Except.bind]; rfl⟩
  obtain ⟨out,ran⟩ := ends
  obtain ⟨mem,ops⟩ := requestEnds wire alwaysMemory demoRegistry ran
  rw [ops, requestReadFrame wire (by decide) [], demoUnpacked, demoPacked, noneSurvivesWithin (fun block => rfl)]
  intro h
  exact h.2 .result ((requestLeft (some true) mem .result).mpr ⟨rfl,rfl⟩)

def ofRequest {β : Type} (n : Nat) (x : Owning β) : Traced (Op (Nat × Block)) Stop β :=
  ⟨x.ops.map (Op.within n),x.result⟩

def serveMessages (pb : Protobuf) (calloc : τ → Bool × τ) (svc : Registry τ) :
    Nat → List Bytes → Conn (Daemon τ) → Traced (Op (Nat × Block)) Stop (Conn (Daemon τ))
  | _, [], c => pure c
  | n, msg :: rest, c => do
    let out ← ofRequest n (processRequest pb calloc svc msg c)
    serveMessages pb calloc svc (n + 1) rest out.2

section Messages
variable (pb : Protobuf) (calloc : τ → Bool × τ) (svc : Registry τ)

def begun : List Bytes → Conn (Daemon τ) → List (Bytes × Conn (Daemon τ))
  | [], _ => []
  | msg :: rest, c => (msg,c) :: match PbrpcService.processRequest pb (platform pb calloc) svc msg c with
    | .ok out => begun rest out.2
    | .error _ => []

def opsOf (request : Bytes × Conn (Daemon τ)) : List (Op Block) := (processRequest pb calloc svc request.1 request.2).ops

def Packed (request : Bytes × Conn (Daemon τ)) : Prop :=
  Returns (processRequest pb calloc svc request.1 request.2).result ∧
    executed pb calloc svc (requestRead pb request.1) request.2.world = some true

/- An executor stops only at params that do not unpack, before it takes a block. -/
theorem stubStops {Q R SQ SR : Type} (stub : Stub Q R SQ SR) (h : SvcHandler SQ SR τ) (params : Bytes) (w : Daemon τ)
    {stop : Stop} (stopped : (stubExec stub calloc h params w).result = .error stop) :
    (stubExec stub calloc h params w).ops = [] := by
  unfold stubExec at stopped ⊢
  cases unpacked : stub.req.unpack params with
  | none => rfl
  | some pbcReq =>
    rw [unpacked] at stopped
    cases stopped

theorem execStops (service : Service) (args : Handler τ service) (params : Bytes) (w : Daemon τ) {stop : Stop}
    (stopped : (exec pb calloc service args params w).result = .error stop) :
    (exec pb calloc service args params w).ops = [] := by
  cases service with
  | demo => exact stubStops calloc (demoStub pb) args params w stopped
  | registry => exact stubStops calloc (registryStub pb) args params w stopped
  | vmon => exact stubStops calloc (vmonStub pb) args params w stopped
  | nodeState => exact stubStops calloc (nodeStateStub pb) args params w stopped

theorem invokeStops {reqhdr : Option PbcRpcRequest} {rsphdr : PbcRpcResponse} {w : Daemon τ} {stop : Stop}
    (stopped : (rpcInvokeCall pb calloc svc reqhdr rsphdr w).result = .error stop) :
    (rpcInvokeCall pb calloc svc reqhdr rsphdr w).ops = if reqhdr.isSome then [.use .envelope] else [] := by
  cases reqhdr with
  | none => rfl
  | some req =>
    unfold rpcInvokeCall at stopped ⊢
    cases given : req.params with
    | none =>
      simp only [given] at stopped
      cases stopped
    | some params =>
      simp only [given] at stopped ⊢
      cases looked : methodLookup req.method svc with
      | error other => rfl
      | ok found =>
        rw [looked] at stopped
        cases found with
        | none => cases stopped
        | some s =>
          change (exec pb calloc s.dispatch s.scArgs params w >>= fun r =>
            pure (r.1,{rsphdr with id := req.id, result := r.2.1},r.2.2)).result = .error stop at stopped
          rcases bindStops stopped with ⟨first,ops⟩ | ⟨_,_,later,_⟩
          · rw [execStops pb calloc s.dispatch s.scArgs params w first] at ops
            exact congrArg (List.cons (Op.use Block.envelope)) ops
          · cases later

theorem requestStops {msg : Bytes} {c : Conn (Daemon τ)} {stop : Stop}
    (stopped : (processRequest pb calloc svc msg c).result = .error stop) :
    (processRequest pb calloc svc msg c).ops =
      if (requestRead pb msg).isSome then [.acquire .envelope,.use .envelope] else [] := by
  unfold processRequest at stopped ⊢
  unfold requestRead
  rcases bindStops stopped with ⟨unread,ops⟩ | ⟨read,was,stopped,ops⟩
  · rw [liftResult] at unread
    rw [ops, unread]
    rfl
  · rw [liftResult] at was
    rw [ops, was]
    rcases bindStops stopped with ⟨none,_⟩ | ⟨_,_,stopped,ops⟩
    · cases none
    · rw [ops]
      obtain ⟨reqhdr,size⟩ := read
      rcases bindStops stopped with ⟨first,ops⟩ | ⟨_,_,later,_⟩
      · rw [ops, invokeStops pb calloc svc first]
        cases reqhdr with
        | none => rfl
        | some req => rfl
      · dsimp only at later
        rw [writeEnds] at later
        cases later

theorem messagesOps (n : Nat) (msgs : List Bytes) (c : Conn (Daemon τ)) :
    (serveMessages pb calloc svc n msgs c).ops = inTurn n ((begun pb calloc svc msgs c).map (opsOf pb calloc svc)) := by
  induction msgs generalizing n c with
  | nil => rfl
  | cons msg rest ih =>
    unfold serveMessages begun
    have erased := requestErased pb calloc svc msg c
    cases ran : (processRequest pb calloc svc msg c).result with
    | error stop =>
      rw [ran] at erased
      rw [bindStop (x := ofRequest n _) ran, ← erased]
      exact (List.append_nil _).symm
    | ok out =>
      rw [ran] at erased
      rw [bindOk (x := ofRequest n _) ran, ← erased, ih]
      rfl

/- What a request leaves: the result that its executor has packed, or the envelope of one at which the process
stops. -/
def Leaves (request : Bytes × Conn (Daemon τ)) (block : Block) : Prop :=
  (block = .result ∧ Packed pb calloc svc request) ∨
    (block = .envelope ∧ ¬ Returns (processRequest pb calloc svc request.1 request.2).result ∧
      (requestRead pb request.1).isSome = true)

theorem requestLife (request : Bytes × Conn (Daemon τ)) :
    Disciplined (opsOf pb calloc svc request) ∧
      ∀ block, lifeOf block (opsOf pb calloc svc request) = .live ↔ Leaves pb calloc svc request block := by
  unfold opsOf Leaves Packed
  cases ran : (processRequest pb calloc svc request.1 request.2).result with
  | error stop =>
    have silent : ¬ Returns (Except.error stop : Run (Int × Conn (Daemon τ))) := by
      intro h
      obtain ⟨_,no⟩ := h
      cases no
    rw [requestStops pb calloc svc ran]
    cases (requestRead pb request.1).isSome with
    | true =>
      refine ⟨by decide,?_⟩
      intro block
      simp only [silent, if_true, false_and, and_false, not_false_eq_true, and_true, false_or]
      cases block <;> decide
    | false =>
      refine ⟨by decide,?_⟩
      intro block
      simp [silent, lifeOf]
  | ok out =>
    obtain ⟨mem,ops⟩ := requestEnds pb calloc svc ran
    have returns : Returns (Except.ok out : Run (Int × Conn (Daemon τ))) := ⟨out,rfl⟩
    rw [ops]
    refine ⟨requestDisciplined _ mem,?_⟩
    intro block
    rw [requestLeft]
    simp [returns]

/- Over any sequence of requests no block is used after it was freed or freed twice, and what is still allocated
is what the requests leave. -/
theorem blocksOfRun (msgs : List Bytes) (c : Conn (Daemon τ)) :
    Disciplined (serveMessages pb calloc svc 0 msgs c).ops ∧
      ∀ n block, lifeOf (n,block) (serveMessages pb calloc svc 0 msgs c).ops = .live ↔
        ∃ request, (begun pb calloc svc msgs c)[n]? = some request ∧ Leaves pb calloc svc request block := by
  rw [messagesOps]
  constructor
  · apply disciplinedInTurn
    intro ops member
    obtain ⟨request,_,rfl⟩ := List.mem_map.mp member
    exact (requestLife pb calloc svc request).1
  · intro n block
    have own := lifeInTurn 0 n block ((begun pb calloc svc msgs c).map (opsOf pb calloc svc))
    rw [Nat.zero_add] at own
    rw [own, List.getD_eq_getElem?_getD, List.getElem?_map]
    cases (begun pb calloc svc msgs c)[n]? with
    | none => simp [lifeOf]
    | some request =>
      simp only [Option.map_some, Option.getD_some, Option.some.injEq, exists_eq_left']
      exact (requestLife pb calloc svc request).2 block

end Messages
end VmpRl.RequestBlocks
