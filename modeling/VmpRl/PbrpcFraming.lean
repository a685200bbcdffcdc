import VmpRl.PbrpcService
import VmpRl.PbrpcClient
import VmpRl.PbrpcWire

/-! Both directions of a connection, end to end: what one side writes message by message
the other side reads message by message, for every way the stream is cut. -/
namespace VmpRl.PbrpcFraming
open Octets CRuntime PbrpcMessages PbrpcXdr PbrpcService PbrpcClient PbrpcWire

variable {δ : Type} {α : δ → Type} {σ ρ κ : Type}

def sendAll (pb : Protobuf) (clnt : Clnt ρ κ) (requests : List PbcRpcRequest) : Clnt ρ κ :=
  requests.foldl (fun clnt req => (rpcWriteRequest pb true clnt req).2) clnt

/- `rpc_write_reply` on the responses in order, each buffer passed to `bufferevent_write` as
`process_request` does. -/
def replyAll (pb : Protobuf) (responses : List PbcRpcResponse) : List Write :=
  responses.map (fun rsp => ⟨(rpcWriteReply pb true rsp).2,toSize (rpcWriteReply pb true rsp).1⟩)

theorem wholeWrite {body : Bytes} (small : Small body) :
    Write.bytes ⟨some (frame body),toSize (toInt (frame body).length)⟩ = frame body :=
  bytesWhole _ (toSizeToInt (by rw [frameSize]; exact small))

theorem writtenAppend (left right : List Write) :
    writtenBytes (left ++ right) = writtenBytes left ++ writtenBytes right := by
  simp [writtenBytes]

theorem sendAllWritten {pb : Protobuf} (law : pb.Lawful) (requests : List PbcRpcRequest)
    (clnt : Clnt ρ κ) :
    writtenBytes (sendAll pb clnt requests).writes =
      writtenBytes clnt.writes ++ frames (requests.map pb.request.pack) := by
  induction requests generalizing clnt with
  | nil => simp [sendAll, frames]
  | cons req rest ih =>
    have one : Write.bytes ⟨some (packedBuffer pb.request req),pb.request.getPackedSize req + 8⟩ =
        frame (pb.request.pack req) := by
      have size : pb.request.getPackedSize req + 8 = (frame (pb.request.pack req)).length := by
        rw [law.request.packedSize, frameSize, Nat.add_comm]
      rw [packedBufferFrame law.request]
      exact bytesWhole _ size
    have later := ih (rpcWriteRequest pb true clnt req).2
    have first : writtenBytes (rpcWriteRequest pb true clnt req).2.writes =
        writtenBytes clnt.writes ++ frame (pb.request.pack req) := by
      simp only [rpcWriteRequest, if_true, writtenAppend]
      simp only [writtenBytes, List.map_cons, List.map_nil, List.flatten_cons, List.flatten_nil,
        List.append_nil, one]
    rw [first] at later
    calc writtenBytes (sendAll pb clnt (req :: rest)).writes
        = writtenBytes (sendAll pb (rpcWriteRequest pb true clnt req).2 rest).writes := rfl
      _ = (writtenBytes clnt.writes ++ frame (pb.request.pack req)) ++
            frames (rest.map pb.request.pack) := later
      _ = writtenBytes clnt.writes ++ frames ((req :: rest).map pb.request.pack) := by
          simp [frames, frame]

theorem replyAllWritten {pb : Protobuf} (law : pb.Lawful) (responses : List PbcRpcResponse)
    (small : ∀ rsp ∈ responses, Small (pb.response.pack rsp)) :
    writtenBytes (replyAll pb responses) = frames (responses.map pb.response.pack) := by
  induction responses with
  | nil => rfl
  | cons rsp rest ih =>
    have size : pb.response.getPackedSize rsp + 8 = (frame (pb.response.pack rsp)).length := by
      rw [law.response.packedSize, frameSize, Nat.add_comm]
    have one : rpcWriteReply pb true rsp =
        (toInt (frame (pb.response.pack rsp)).length,some (frame (pb.response.pack rsp))) := by
      simp only [rpcWriteReply, packedBufferFrame law.response, size, if_true]
    have first := wholeWrite (small rsp List.mem_cons_self)
    have later := ih (fun r member => small r (List.mem_cons_of_mem _ member))
    simp only [writtenBytes, replyAll, List.map_cons, List.flatten_cons, one, first] at later ⊢
    rw [later]
    simp [frames, frame]

theorem serveAllReads (pb : Protobuf) (P : Platform δ α σ) (head : List (Callout δ α))
    (requests : List PbcRpcRequest)
    (served : ∀ req ∈ requests, ∀ w, Returns (rpcInvokeCall P head (some req) .init w))
    (c : Conn σ) :
    ∃ out, requests.foldlM (fun c req => serveRequest pb P head (some req) c) c = .ok out ∧
      out.reads = c.reads ++ requests.map some := by
  induction requests generalizing c with
  | nil => exact ⟨c,rfl,by simp⟩
  | cons req rest ih =>
    obtain ⟨⟨ret,rsp,w⟩,invoked⟩ := served req List.mem_cons_self c.world
    obtain ⟨next,serving⟩ : ∃ next, serveRequest pb P head (some req) c = .ok next := by
      simp only [serveRequest, invoked, bind, Except.bind]
      exact ⟨_,rfl⟩
    obtain ⟨out,ran,reads⟩ := ih (fun r member => served r (List.mem_cons_of_mem _ member)) next
    refine ⟨out,?_,by simp [reads, serveReads pb P head serving]⟩
    simp only [List.foldlM_cons, serving, bind, Except.bind]
    exact ran

theorem handleAllReads {pb : Protobuf} (law : pb.Lawful) (responses : List PbcRpcResponse)
    (clnt : Clnt ρ κ) :
    ∃ out : Clnt ρ κ, (responses.map pb.response.pack).foldlM (m := Run)
        (fun clnt body => .ok (handleResponse (pb.response.unpack body) clnt)) clnt = .ok out ∧
      out.reads = clnt.reads ++ responses.map some := by
  induction responses generalizing clnt with
  | nil => exact ⟨clnt,rfl,by simp⟩
  | cons rsp rest ih =>
    obtain ⟨out,ran,reads⟩ := ih (handleResponse (some rsp) clnt)
    refine ⟨out,?_,by simp [reads]⟩
    simp only [List.map_cons, List.foldlM_cons, law.response.unpackPack, bind, Except.bind]
    exact ran

theorem requestsServed {pb : Protobuf} (law : pb.Lawful) (P : Platform δ α σ)
    (head : List (Callout δ α)) (requests : List PbcRpcRequest)
    (sized : ∀ req ∈ requests, pb.request.getPackedSize req + 8 < 2 ^ 31) (chunks : List Bytes)
    (stream : chunks.flatten = writtenBytes (sendAll pb (Clnt.new (ρ := ρ) (κ := κ)) requests).writes)
    (c : Conn σ) :
    chunks.foldlM (onData true (processRequest pb P head)) (held [] c) =
      (requests.foldlM (fun c req => serveRequest pb P head (some req) c) c).map (held []) := by
  have small : ∀ b ∈ requests.map pb.request.pack, Small b := by
    intro b member
    obtain ⟨req,present,rfl⟩ := List.mem_map.mp member
    have size := sized req present
    rw [law.request.packedSize] at size
    show 8 + (pb.request.pack req).length < 2 ^ 31
    omega
  rw [sendAllWritten law] at stream
  have delivered := linkDelivers _ (fun _ small => small) (processTakesFrame pb P head) _ small
    chunks (by simpa [Clnt.new, writtenBytes] using stream) c
  simpa only [List.foldlM_map, law.request.unpackPack] using delivered

theorem responsesArrive {pb : Protobuf} (law : pb.Lawful) (responses : List PbcRpcResponse)
    (sized : ∀ rsp ∈ responses, pb.response.getPackedSize rsp + 8 < 2 ^ 31) (chunks : List Bytes)
    (stream : chunks.flatten = writtenBytes (replyAll pb responses)) (clnt : Clnt ρ κ) :
    ∃ out, chunks.foldlM (onData true (processResponse pb)) (held [] clnt) = .ok (held [] out) ∧
      out.reads = clnt.reads ++ responses.map some := by
  have sizes : ∀ rsp ∈ responses, Small (pb.response.pack rsp) := by
    intro rsp member
    have size := sized rsp member
    rw [law.response.packedSize] at size
    show 8 + (pb.response.pack rsp).length < 2 ^ 31
    omega
  have small : ∀ b ∈ responses.map pb.response.pack, Small b := by
    intro b member
    obtain ⟨rsp,present,rfl⟩ := List.mem_map.mp member
    exact sizes rsp present
  rw [replyAllWritten law responses sizes] at stream
  have delivered := linkDelivers _ (fun _ small => small) (responseTakesFrame (ρ := ρ) (κ := κ) pb)
    _ small chunks stream clnt
  obtain ⟨out,ran,reads⟩ := handleAllReads law responses clnt
  rw [ran] at delivered
  exact ⟨out,delivered,reads⟩

/- Both directions: the server reads the requests it was sent, up to the end of the stream or
to an executor that stops the process, and the client reads the responses. -/
theorem endToEndFraming {pb : Protobuf} (law : pb.Lawful) (P : Platform δ α σ)
    (head : List (Callout δ α)) (requests : List PbcRpcRequest)
    (sizedRequests : ∀ req ∈ requests, pb.request.getPackedSize req + 8 < 2 ^ 31)
    (responses : List PbcRpcResponse)
    (sizedResponses : ∀ rsp ∈ responses, pb.response.getPackedSize rsp + 8 < 2 ^ 31)
    (toServer toClient : List Bytes)
    (sent : toServer.flatten = writtenBytes (sendAll pb (Clnt.new (ρ := ρ) (κ := κ)) requests).writes)
    (answered : toClient.flatten = writtenBytes (replyAll pb responses)) (w : σ) (clnt : Clnt ρ κ) :
    (toServer.foldlM (onData true (processRequest pb P head)) (held [] ⟨w,[],[]⟩) =
        (requests.foldlM (fun c req => serveRequest pb P head (some req) c) ⟨w,[],[]⟩).map (held []) ∧
      ((∀ req ∈ requests, ∀ w, Returns (rpcInvokeCall P head (some req) .init w)) →
        ∃ out, toServer.foldlM (onData true (processRequest pb P head)) (held [] ⟨w,[],[]⟩) =
          .ok (held [] out) ∧ out.reads = requests.map some)) ∧
    ∃ out, toClient.foldlM (onData true (processResponse pb)) (held [] clnt) = .ok (held [] out) ∧
      out.reads = clnt.reads ++ responses.map some := by
  have served := requestsServed law P head requests sizedRequests toServer sent ⟨w,[],[]⟩
  refine ⟨⟨served,?_⟩,responsesArrive law responses sizedResponses toClient answered clnt⟩
  intro returning
  obtain ⟨out,ran,reads⟩ := serveAllReads pb P head requests returning ⟨w,[],[]⟩
  rw [ran] at served
  exact ⟨out,served,by simpa using reads⟩

def ping : PbcRpcRequest := ⟨7,cstr "ping",some [8,1]⟩
def pong : PbcRpcResponse := ⟨7,[8,1],none⟩
def noServices : Platform Empty (fun _ => Unit) Unit := ⟨fun d => d.elim,fun w => (true,w)⟩
def byteByByte (stream : Bytes) : List Bytes := stream.map ([·])

theorem byteByByteWhole (stream : Bytes) : (byteByByte stream).flatten = stream := by
  induction stream with
  | nil => rfl
  | cons b rest ih =>
    simp only [byteByByte, List.map_cons, List.flatten_cons, List.singleton_append] at ih ⊢
    rw [ih]

theorem pingPongFraming : ∃ server client,
    (byteByByte (frames [wire.request.pack ping,wire.request.pack ping])).foldlM
        (onData true (processRequest wire noServices [])) (held [] ⟨(),[],[]⟩) =
      .ok (held [] server) ∧
    server.reads = [some ping,some ping] ∧
    (byteByByte (frame (wire.response.pack pong))).foldlM (onData true (processResponse wire))
        (held [] (Clnt.new (ρ := Unit) (κ := Unit))) =
      .ok (held [] client) ∧
    client.reads = [some pong] := by
  have both := endToEndFraming (ρ := Unit) (κ := Unit) wireLawful noServices [] [ping,ping]
    (by decide) [pong] (by decide)
    (byteByByte (frames [wire.request.pack ping,wire.request.pack ping]))
    (byteByByte (frame (wire.response.pack pong))) (byteByByteWhole _) (byteByByteWhole _) () .new
  obtain ⟨⟨_,served⟩,client,delivered,responses⟩ := both
  have returning : ∀ req ∈ [ping,ping], ∀ w,
      Returns (rpcInvokeCall noServices [] (some req) .init w) := by
    intro req member w
    obtain rfl : req = ping := by simpa using member
    exact ⟨_,rfl⟩
  obtain ⟨server,arrived,requests⟩ := served returning
  exact ⟨server,client,arrived,requests,delivered,responses⟩

end VmpRl.PbrpcFraming
