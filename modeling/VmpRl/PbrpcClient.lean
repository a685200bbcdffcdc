import VmpRl.PbrpcXdr

/-! The client end of a connection: the id generator, the list of outstanding calls,
`pbrpc_clnt_call` and `process_response`. -/
namespace VmpRl.PbrpcClient
open Octets CRuntime PbrpcMessages PbrpcXdr

/- `rpc_node_t`. Two nodes are different objects even where all their fields agree, so
`entry` says which allocation the node is; the code compares only `id`. -/
structure RpcNode (ρ κ : Type) where
  entry : Nat
  id : BitVec 32
  replymsg : ρ
  ctx : κ
  deriving DecidableEq, Repr

structure Reply (ρ κ : Type) where
  entry : Nat
  replymsg : ρ
  ctx : κ
  result : Bytes
  ret : Int
  deriving DecidableEq, Repr

/- `pbrpc_clnt`, with what was written to `bev`, what `rpc_read_rsp` returned and which
replies were called, in order. `nodes` counts the entries allocated. -/
structure Clnt (ρ κ : Type) where
  outstanding : List (RpcNode ρ κ)
  nodes : Nat
  writes : List Write
  reads : List (Option PbcRpcResponse)
  replies : List (Reply ρ κ)

def Clnt.new {ρ κ : Type} : Clnt ρ κ := ⟨[],0,[],[],[]⟩

variable {ρ κ : Type}

def nextId (idGen : BitVec 64) : BitVec 64 × BitVec 64 := (idGen + 1,idGen + 1)

def rpcWriteRequest (pb : Protobuf) (calloc : Bool) (clnt : Clnt ρ κ) (reqhdr : PbcRpcRequest) :
    Int × Clnt ρ κ :=
  if calloc then
    let reqlen := pb.request.getPackedSize reqhdr
    (toInt (reqlen + 8 : Nat),
      {clnt with writes := clnt.writes ++ [⟨some (packedBuffer pb.request reqhdr),reqlen + 8⟩]})
  else (-1,clnt)

structure CallMemory where
  mth : Bool
  entry : Bool
  rbuf : Bool
  deriving DecidableEq, Repr

/- `entry->id = reqhdr.id` keeps the low 32 bits. -/
def pbrpcClntCall (pb : Protobuf) (memory : CallMemory) (idGen : BitVec 64) (clnt : Clnt ρ κ)
    (method : CString) (msg : Bytes) (replymsg : ρ) (args : κ) : Int × BitVec 64 × Clnt ρ κ :=
  if memory.mth then
    let (id, idGen) := nextId idGen
    let reqhdr : PbcRpcRequest := ⟨id,method,some msg⟩
    if memory.entry then
      let node : RpcNode ρ κ := ⟨clnt.nodes,reqhdr.id.setWidth 32,replymsg,args⟩
      let clnt := {clnt with outstanding := clnt.outstanding ++ [node], nodes := clnt.nodes + 1}
      (0,idGen,(rpcWriteRequest pb memory.rbuf clnt reqhdr).2)
    else (-1,idGen,clnt)
  else (-1,idGen,clnt)

/- `call->id == rsp->id`: the int32_t is converted to a uint64_t, with its sign. -/
def RpcNode.answers (call : RpcNode ρ κ) (id : BitVec 64) : Bool := call.id.signExtend 64 == id

def unlink (id : BitVec 64) : List (RpcNode ρ κ) → Option (RpcNode ρ κ × List (RpcNode ρ κ))
  | [] => none
  | call :: rest =>
    if call.answers id then some (call,rest)
    else (unlink id rest).map (fun found => (found.1,call :: found.2))

def handleResponse (rsp : Option PbcRpcResponse) (clnt : Clnt ρ κ) : Clnt ρ κ :=
  let clnt := {clnt with reads := clnt.reads ++ [rsp]}
  match rsp with
  | none => clnt
  | some rsp => match unlink rsp.id clnt.outstanding with
    | none => clnt
    | some (call,rest) => {clnt with
        outstanding := rest
        replies := clnt.replies ++ [⟨call.entry,call.replymsg,call.ctx,rsp.result,0⟩]}

def processResponse (pb : Protobuf) : XdrProc (Clnt ρ κ) := fun msg clnt => do
  let (rsp, bytesRead) ← readMessage pb.response msg
  .ok (toInt bytesRead,handleResponse rsp clnt)

variable (pb : Protobuf)

theorem responseTakes :
    TakesFrame (fun (clnt : Clnt ρ κ) body => .ok (handleResponse (pb.response.unpack body) clnt))
      Fits (processResponse pb) := by
  intro body rest clnt fits
  have bound : 8 + body.length < 2 ^ 64 := fits
  have inside : body.length < 2 ^ 64 := by omega
  simp only [processResponse, readFrame pb.response inside rest, bind, Except.bind, toIntFrame fits]
  rfl

theorem responseTakesFrame :
    TakesFrame (fun (clnt : Clnt ρ κ) body => .ok (handleResponse (pb.response.unpack body) clnt))
      Small (processResponse pb) :=
  (responseTakes pb).mono (fun _ small => smallFits small)

@[simp] theorem handleReads (rsp : Option PbcRpcResponse) (clnt : Clnt ρ κ) :
    (handleResponse rsp clnt).reads = clnt.reads ++ [rsp] := by
  unfold handleResponse
  cases rsp with
  | none => rfl
  | some rsp =>
    dsimp only
    split <;> rfl

end VmpRl.PbrpcClient
