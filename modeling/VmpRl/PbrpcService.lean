import VmpRl.PbrpcXdr

/-! The server end of a connection: the callout list, the dispatch of a request, the
reply and `process_request`. What the executors and the allocator depend on is one
world that is passed along; an executor may stop the process. -/
namespace VmpRl.PbrpcService
open Octets CRuntime PbrpcMessages PbrpcXdr

/- `pbrpc_svc_callout`. The dispatch function is compared by `pbrpc_svc_register`, so it is a
value of a type `δ` with decidable equality; the type of the arguments goes with it. -/
structure Callout (δ : Type) (α : δ → Type) where
  scProg : BitVec 32
  scVers : BitVec 32
  scName : Option CString
  dispatch : δ
  scArgs : α dispatch

variable {δ : Type} {α : δ → Type} {σ : Type}

/- The test of `pbrpc_svc_find`; NULL is a wildcard on either side. -/
def Callout.matches (s : Callout δ α) (prog vers : BitVec 32) (name : Option CString) : Bool :=
  (s.scProg == prog && s.scVers == vers) &&
    (name == none || s.scName == none || name == s.scName)

/- The entry found with the entries that precede it (the last of which is `*prev`) and follow it. -/
def pbrpcSvcFind (prog vers : BitVec 32) (name : Option CString) :
    List (Callout δ α) → Option (List (Callout δ α) × Callout δ α × List (Callout δ α))
  | [] => none
  | s :: rest =>
    if s.matches prog vers name then some ([],s,rest)
    else (pbrpcSvcFind prog vers name rest).map (fun found => (s :: found.1,found.2))

def pbrpcSvcRegister [DecidableEq δ] (calloc : Bool) (head : List (Callout δ α))
    (prog vers : BitVec 32) (name : Option CString) (dispatch : δ) (args : α dispatch) :
    Int × List (Callout δ α) :=
  match pbrpcSvcFind prog vers name head with
  | some (_,s,_) => if s.dispatch = dispatch then (0,head) else (1,head)
  | none => if calloc then (0,⟨prog,vers,name,dispatch,args⟩ :: head) else (-1,head)

def pbrpcSvcUnregister (head : List (Callout δ α)) (prog vers : BitVec 32)
    (name : Option CString) : List (Callout δ α) :=
  match pbrpcSvcFind prog vers name head with
  | none => head
  | some (before,_,after) => before ++ after

/- What runs behind the callouts: `s->dispatch (s->sc_args, &params, &result)` with the bytes
it leaves in the result, and `calloc`. -/
structure Platform (δ : Type) (α : δ → Type) (σ : Type) where
  exec : (d : δ) → α d → Bytes → σ → Run (Int × Bytes × σ)
  calloc : σ → Bool × σ

/- `strcmp (reqhdr->method, s->sc_name)` over the list; it reads the name of every entry it passes. -/
def methodLookup (method : CString) : List (Callout δ α) → Run (Option (Callout δ α))
  | [] => .ok none
  | s :: rest => match s.scName with
    | none => .error .nullDeref
    | some name => if method = name then .ok (some s) else methodLookup method rest

def rpcInvokeCall (P : Platform δ α σ) (head : List (Callout δ α))
    (reqhdr : Option PbcRpcRequest) (rsphdr : PbcRpcResponse) (w : σ) :
    Run (Int × PbcRpcResponse × σ) :=
  match reqhdr with
  | none => .error .nullDeref -- `reqhdr->has_params` of what did not unpack
  | some req => match req.params with
    | none => .ok (-1,rsphdr,w)
    | some params =>
      let rsphdr := {rsphdr with id := req.id}
      do match ← methodLookup req.method head with
        | none => .ok (-1,rsphdr,w)
        | some s =>
          let (ret, result, w) ← P.exec s.dispatch s.scArgs params w
          .ok (ret,{rsphdr with result := result},w)

def rpcWriteReply (pb : Protobuf) (calloc : Bool) (rsphdr : PbcRpcResponse) : Int × Option Bytes :=
  if calloc then
    (toInt (pb.response.getPackedSize rsphdr + 8 : Nat),some (packedBuffer pb.response rsphdr))
  else (-1,none)

structure Conn (σ : Type) where
  world : σ
  reads : List (Option PbcRpcRequest)
  writes : List Write

def Conn.written (c : Conn σ) : Bytes := writtenBytes c.writes

def serveRequest (pb : Protobuf) (P : Platform δ α σ) (head : List (Callout δ α))
    (reqhdr : Option PbcRpcRequest) (c : Conn σ) : Run (Conn σ) := do
  let (_, rsphdr, w) ← rpcInvokeCall P head reqhdr .init c.world
  let (mem, w) := P.calloc w
  let (ret, outbuf) := rpcWriteReply pb mem rsphdr
  .ok ⟨w,c.reads ++ [reqhdr],c.writes ++ [⟨outbuf,toSize ret⟩]⟩

def processRequest (pb : Protobuf) (P : Platform δ α σ) (head : List (Callout δ α)) :
    XdrProc (Conn σ) := fun msg c => do
  let (reqhdr, bytesRead) ← readMessage pb.request msg
  let c ← serveRequest pb P head reqhdr c
  .ok (toInt bytesRead,c)

variable (pb : Protobuf) (P : Platform δ α σ) (head : List (Callout δ α))

theorem processTakes :
    TakesFrame (fun c body => serveRequest pb P head (pb.request.unpack body) c) Fits
      (processRequest pb P head) := by
  intro body rest c fits
  have bound : 8 + body.length < 2 ^ 64 := fits
  have inside : body.length < 2 ^ 64 := by omega
  simp only [processRequest, readFrame pb.request inside rest, bind, Except.bind, toIntFrame fits]
  cases serveRequest pb P head (pb.request.unpack body) c with
  | error e => rfl
  | ok c => rfl

theorem processTakesFrame :
    TakesFrame (fun c body => serveRequest pb P head (pb.request.unpack body) c) Small
      (processRequest pb P head) :=
  (processTakes pb P head).mono (fun _ small => smallFits small)

theorem processReturns {body : Bytes} (fits : body.length < 2 ^ 64) (rest : Bytes) (c : Conn σ) :
    Returns (processRequest pb P head (frame body ++ rest) c) ↔
      Returns (rpcInvokeCall P head (pb.request.unpack body) .init c.world) := by
  simp only [processRequest, readFrame pb.request fits rest, serveRequest, bind, Except.bind]
  cases rpcInvokeCall P head (pb.request.unpack body) .init c.world with
  | error stop => simp [Returns]
  | ok r => simp [Returns]

theorem serveReads {reqhdr c out} (h : serveRequest pb P head reqhdr c = .ok out) :
    out.reads = c.reads ++ [reqhdr] := by
  unfold serveRequest at h
  cases hi : rpcInvokeCall P head reqhdr .init c.world with
  | error e => simp [hi, bind, Except.bind] at h
  | ok r =>
    simp only [hi, bind, Except.bind] at h
    cases h
    rfl

structure Sound : Prop where
  named : ∀ s ∈ head, s.scName ≠ none
  returning : ∀ s ∈ head, ∀ params w, Returns (P.exec s.dispatch s.scArgs params w)

theorem lookupReturns {head : List (Callout δ α)} (named : ∀ s ∈ head, s.scName ≠ none)
    (method : CString) :
    (methodLookup method head = .ok none ∧ ∀ s ∈ head, s.scName ≠ some method) ∨
      ∃ s ∈ head, s.scName = some method ∧ methodLookup method head = .ok (some s) := by
  induction head with
  | nil => exact Or.inl ⟨rfl,by simp⟩
  | cons s rest ih =>
    cases hn : s.scName with
    | none => exact absurd hn (named s List.mem_cons_self)
    | some name =>
      by_cases same : method = name
      · refine Or.inr ⟨s,List.mem_cons_self,by rw [hn, same],?_⟩
        simp only [methodLookup, hn, if_pos same]
      · have skip : methodLookup method (s :: rest) = methodLookup method rest := by
          simp only [methodLookup, hn, if_neg same]
        rw [skip]
        rcases ih (fun t member => named t (List.mem_cons_of_mem _ member)) with ⟨h,absent⟩ | ⟨t,member,h⟩
        · refine Or.inl ⟨h,?_⟩
          intro t member
          rcases List.mem_cons.mp member with rfl | later
          · rw [hn]
            exact fun equal => same (Option.some.inj equal).symm
          · exact absent t later
        · exact Or.inr ⟨t,List.mem_cons_of_mem _ member,h⟩

def replyId (req : PbcRpcRequest) : BitVec 64 := if req.params = none then 0 else req.id

theorem invokeReturns (sound : Sound P head) (req : PbcRpcRequest) (w : σ) :
    ∃ ret rsp after, rpcInvokeCall P head (some req) .init w = .ok (ret,rsp,after) ∧
      rsp.id = replyId req := by
  cases hp : req.params with
  | none => exact ⟨-1,.init,w,by simp [rpcInvokeCall, hp],by simp [replyId, hp, PbcRpcResponse.init]⟩
  | some params =>
    have own : replyId req = req.id := by simp [replyId, hp]
    rcases lookupReturns sound.named req.method with ⟨h,_⟩ | ⟨s,member,_,h⟩
    · exact ⟨-1,{PbcRpcResponse.init with id := req.id},w,
        by simp [rpcInvokeCall, hp, h, bind, Except.bind],own.symm⟩
    · obtain ⟨⟨ret,result,after⟩,ran⟩ := sound.returning s member params w
      exact ⟨ret,{PbcRpcResponse.init with id := req.id, result := result},after,
        by simp [rpcInvokeCall, hp, h, ran, bind, Except.bind],own.symm⟩

theorem serveReturns (law : pb.Lawful) (sound : Sound P head)
    (memory : ∀ w, (P.calloc w).1 = true) (req : PbcRpcRequest) (c : Conn σ) :
    ∃ ret rsp after out, rpcInvokeCall P head (some req) .init c.world = .ok (ret,rsp,after) ∧
      rsp.id = replyId req ∧ serveRequest pb P head (some req) c = .ok out ∧
      out.world = (P.calloc after).2 ∧
      out.writes = c.writes ++ [⟨some (frame (pb.response.pack rsp)),
        toSize (toInt (frame (pb.response.pack rsp)).length)⟩] := by
  obtain ⟨ret,rsp,after,invoked,id⟩ := invokeReturns P head sound req c.world
  have packed := packedBufferFrame law.response rsp
  have size : pb.response.getPackedSize rsp + 8 = (frame (pb.response.pack rsp)).length := by
    rw [law.response.packedSize, frameSize, Nat.add_comm]
  cases hc : P.calloc after with
  | mk mem later =>
    have mem : mem = true := by simpa [hc] using memory after
    subst mem
    have reply : rpcWriteReply pb true rsp =
        (toInt (frame (pb.response.pack rsp)).length,some (frame (pb.response.pack rsp))) := by
      simp only [rpcWriteReply, packed, size, if_true]
    refine ⟨ret,rsp,after,⟨later,c.reads ++ [some req],c.writes ++
      [⟨some (frame (pb.response.pack rsp)),toSize (toInt (frame (pb.response.pack rsp)).length)⟩]⟩,
      invoked,id,?_,by rw [hc],rfl⟩
    simp only [serveRequest, invoked, bind, Except.bind, hc, reply]

end VmpRl.PbrpcService
