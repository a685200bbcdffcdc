import VmpRl.PbrpcClient
import VmpRl.Services

/-! What a request and a call leave behind when memory runs out or a size does not fit: a whole frame
and, for a call, its entry, or nothing at all. -/
namespace VmpRl.WholeWrites
open Octets CRuntime PbrpcMessages PbrpcXdr PbrpcService PbrpcClient

variable {δ : Type} {α : δ → Type} {σ ρ κ : Type}

structure ReplyWhole (pb : Protobuf) (P : Platform δ α σ) (head : List (Callout δ α))
    (reqhdr : Option PbcRpcRequest) (c out : Conn σ) : Prop where
  asked : ∃ writes, out.writes = c.writes ++ writes ∧
    ∀ w ∈ writes, ∃ data, w.data = some data ∧ w.size = data.length
  whole : out.written = c.written ∨ ∃ ret rsp w, rpcInvokeCall P head reqhdr .init c.world = .ok (ret,rsp,w) ∧
    out.written = c.written ++ frame (pb.response.pack rsp)

theorem writtenSnoc (writes : List Write) (w : Write) :
    writtenBytes (writes ++ [w]) = writtenBytes writes ++ w.bytes := by
  simp [writtenBytes]

theorem packedLength {M : Type} {codec : Codec M} (law : codec.Lawful) (m : M) :
    (packedBuffer codec m).length = codec.getPackedSize m + 8 := by
  rw [packedBufferFrame law, frameSize, law.packedSize, Nat.add_comm]

def replyWrite (pb : Protobuf) (memory : Bool) (rsp : PbcRpcResponse) : Write :=
  ⟨(rpcWriteReply pb memory rsp).2,toSize (rpcWriteReply pb memory rsp).1⟩

theorem replyBuilt (pb : Protobuf) (rsp : PbcRpcResponse) : replyWrite pb true rsp =
    ⟨some (packedBuffer pb.response rsp),toSize (toInt (pb.response.getPackedSize rsp + 8 : Nat))⟩ := by
  simp only [replyWrite, rpcWriteReply, if_true]

theorem serveInvoked (pb : Protobuf) {P : Platform δ α σ} {head : List (Callout δ α)}
    {reqhdr : Option PbcRpcRequest} {c : Conn σ} {ret : Int} {rsp : PbcRpcResponse} {w : σ}
    (invoked : rpcInvokeCall P head reqhdr .init c.world = .ok (ret,rsp,w)) :
    serveRequest pb P head reqhdr c = .ok ⟨(P.calloc w).2,c.reads ++ [reqhdr],
      c.writes ++ [replyWrite pb (P.calloc w).1 rsp]⟩ := by
  simp only [serveRequest, invoked, bind, Except.bind]
  rfl

theorem replySized {pb : Protobuf} (law : pb.response.Lawful) (memory : Bool) (rsp : PbcRpcResponse) :
    (∃ data, (replyWrite pb memory rsp).data = some data ∧ (replyWrite pb memory rsp).size = data.length) ↔
      memory = true ∧ Survives (pb.response.getPackedSize rsp + 8) := by
  have length := packedLength law rsp
  cases memory with
  | false =>
    constructor
    · intro h
      obtain ⟨data,built,_⟩ := h
      cases built
    · intro h
      cases h.1
  | true =>
    simp only [replyBuilt, Option.some.injEq, exists_eq_left', length, true_and]
    exact Iff.rfl

theorem servedWhole {pb : Protobuf} (law : pb.response.Lawful) {P : Platform δ α σ}
    {head : List (Callout δ α)} {reqhdr : Option PbcRpcRequest} {c : Conn σ} {ret : Int} {rsp : PbcRpcResponse}
    {w : σ} (invoked : rpcInvokeCall P head reqhdr .init c.world = .ok (ret,rsp,w)) {out : Conn σ}
    (served : serveRequest pb P head reqhdr c = .ok out) :
    ReplyWhole pb P head reqhdr c out ↔
      (P.calloc w).1 = true ∧ Survives (pb.response.getPackedSize rsp + 8) := by
  rw [serveInvoked pb invoked] at served
  cases Except.ok.inj served
  constructor
  · intro h
    obtain ⟨writes,same,sizes⟩ := h.asked
    have one := List.append_cancel_left same
    exact (replySized law _ rsp).mp (sizes _ (one ▸ List.mem_singleton_self _))
  · intro h
    have sized := (replySized law _ rsp).mpr h
    refine ⟨⟨_,rfl,fun asked member => List.mem_singleton.mp member ▸ sized⟩,Or.inr ⟨ret,rsp,w,invoked,?_⟩⟩
    have appended : (replyWrite pb (P.calloc w).1 rsp).bytes = frame (pb.response.pack rsp) := by
      rw [h.1, replyBuilt, bytesWhole _ (by rw [packedLength law]; exact h.2), packedBufferFrame law]
    show writtenBytes (c.writes ++ [replyWrite pb (P.calloc w).1 rsp]) = _
    rw [writtenSnoc, appended]
    rfl

def RepliesWhole (pb : Protobuf) (P : Platform δ α σ) (head : List (Callout δ α)) (body rest : Bytes)
    (c : Conn σ) : Prop :=
  ∀ bytesRead out, processRequest pb P head (frame body ++ rest) c = .ok (bytesRead,out) →
    ReplyWhole pb P head (pb.request.unpack body) c out

/- `process_request` appends the frame of its response or nothing, and asks for no other size than that
of the buffer it built, exactly if the allocation succeeds and the size of the frame passes through
the int. -/
theorem replyWhole {pb : Protobuf} (law : pb.response.Lawful) (P : Platform δ α σ) (head : List (Callout δ α))
    {body : Bytes} (fits : Fits body) (rest : Bytes) (c : Conn σ) :
    RepliesWhole pb P head body rest c ↔
      ∀ ret rsp w, rpcInvokeCall P head (pb.request.unpack body) .init c.world = .ok (ret,rsp,w) →
        (P.calloc w).1 = true ∧ Survives (pb.response.getPackedSize rsp + 8) := by
  have taken : processRequest pb P head (frame body ++ rest) c =
      (serveRequest pb P head (pb.request.unpack body) c).map (fun t => (toInt (frame body).length,t)) :=
    processTakes pb P head body rest c fits
  constructor
  · intro whole ret rsp w invoked
    have served := serveInvoked pb invoked
    simp only [served, Except.map] at taken
    exact (servedWhole law invoked served).mp (whole _ _ taken)
  · intro sized bytesRead out ran
    rw [taken] at ran
    cases served : serveRequest pb P head (pb.request.unpack body) c with
    | error stop =>
      rw [served] at ran
      cases ran
    | ok next =>
      simp only [served, Except.map] at ran
      obtain ⟨_,rfl⟩ := Prod.mk.inj (Except.ok.inj ran)
      cases invoked : rpcInvokeCall P head (pb.request.unpack body) .init c.world with
      | error stop =>
        simp [serveRequest, invoked, bind, Except.bind] at served
      | ok r =>
        obtain ⟨ret,rsp,w⟩ := r
        exact (servedWhole law invoked served).mpr (sized ret rsp w invoked)

def demoRequestBody : Bytes := Services.demoBody (PbrpcWire.wire.demoReq.pack ⟨5⟩)
def demoResponse : PbcRpcResponse := ⟨9,PbrpcWire.wire.demoRsp.pack ⟨5,3,4096⟩,none⟩

theorem demoInvoked : rpcInvokeCall (Services.platform PbrpcWire.wire Services.alwaysMemory) Services.demoRegistry
    (PbrpcWire.wire.request.unpack demoRequestBody) .init ⟨(),[]⟩ = .ok (0,demoResponse,⟨(),[.demo]⟩) := by
  rw [demoRequestBody, Services.demoBody, PbrpcWire.wireLawful.request.unpackPack]
  rfl

theorem demoWhole : RepliesWhole PbrpcWire.wire (Services.platform PbrpcWire.wire Services.alwaysMemory)
      Services.demoRegistry demoRequestBody [] Services.idle ∧
    ∃ bytesRead out, processRequest PbrpcWire.wire (Services.platform PbrpcWire.wire Services.alwaysMemory)
        Services.demoRegistry (frame demoRequestBody ++ []) Services.idle = .ok (bytesRead,out) ∧
      out.written = frame (PbrpcWire.wire.response.pack demoResponse) := by
  have fits : Fits demoRequestBody := by
    show 8 + demoRequestBody.length < 2 ^ 64
    decide +kernel
  have whole := (replyWhole PbrpcWire.wireLawful.response
    (Services.platform PbrpcWire.wire Services.alwaysMemory) Services.demoRegistry fits [] Services.idle).mpr (by
      intro ret rsp w invoked
      obtain ⟨_,rest⟩ := Prod.mk.inj (Except.ok.inj (demoInvoked.symm.trans invoked))
      obtain ⟨rfl,_⟩ := Prod.mk.inj rest
      exact ⟨rfl,toSizeToInt (by decide +kernel)⟩)
  have taken := processTakes PbrpcWire.wire (Services.platform PbrpcWire.wire Services.alwaysMemory)
    Services.demoRegistry demoRequestBody [] Services.idle fits
  have served := serveInvoked PbrpcWire.wire (c := Services.idle) demoInvoked
  simp only [served, Except.map] at taken
  refine ⟨whole,_,_,taken,?_⟩
  decide +kernel

def bare (memory : Bool) : Platform Empty (fun _ => Unit) Unit := ⟨fun d => d.elim,fun w => (memory,w)⟩

def bareBody : Bytes := PbrpcWire.wire.request.pack ⟨1,cstr "",none⟩

theorem bareInvoked (memory : Bool) :
    rpcInvokeCall (bare memory) [] (PbrpcWire.wire.request.unpack bareBody) .init () = .ok (-1,.init,()) := by
  rw [bareBody, PbrpcWire.wireLawful.request.unpackPack]
  rfl

theorem bareFits : Fits bareBody := by
  show 8 + bareBody.length < 2 ^ 64
  decide

theorem nothingBuilt : ∃ bytesRead out,
    processRequest PbrpcWire.wire (bare false) [] (frame bareBody ++ []) ⟨(),[],[]⟩ = .ok (bytesRead,out) ∧
      out.writes = [⟨none,toSize (-1)⟩] ∧
      ¬ RepliesWhole PbrpcWire.wire (bare false) [] bareBody [] ⟨(),[],[]⟩ := by
  have taken := processTakes PbrpcWire.wire (bare false) [] bareBody [] ⟨(),[],[]⟩ bareFits
  have served := serveInvoked PbrpcWire.wire (c := ⟨(),[],[]⟩) (bareInvoked false)
  simp only [served, Except.map] at taken
  refine ⟨_,_,taken,?_,?_⟩
  · simp only [replyWrite, rpcWriteReply, bare, Bool.false_eq_true, if_false, List.nil_append]
  · intro whole
    cases ((servedWhole PbrpcWire.wireLawful.response (bareInvoked false) served).mp (whole _ _ taken)).1

/- A call that returns 0 has appended its entry and written one frame with the entry's id; another has
changed neither the entries nor what was written. -/
structure CallAtomic (pb : Protobuf) (method : CString) (msg : Bytes) (replymsg : ρ) (args : κ)
    (clnt : Clnt ρ κ) (ret : Int) (after : Clnt ρ κ) : Prop where
  called : ret = 0 → ∃ node w id, after.outstanding = clnt.outstanding ++ [node] ∧
    node.replymsg = replymsg ∧ node.ctx = args ∧ after.writes = clnt.writes ++ [w] ∧ node.answers id = true ∧
    w.bytes = frame (pb.request.pack ⟨id,method,some msg⟩)
  failed : ret ≠ 0 → after.outstanding = clnt.outstanding ∧ writtenBytes after.writes = writtenBytes clnt.writes

def IdKept (idGen : BitVec 64) : Prop := ((nextId idGen).1.setWidth 32).signExtend 64 = (nextId idGen).1

instance (idGen : BitVec 64) : Decidable (IdKept idGen) := by unfold IdKept; infer_instance

theorem frameInjective {left right : Bytes} (same : frame left = frame right) : left = right := by
  have bytes : frame left ++ [] = frame right ++ [] := by rw [same]
  have behind := congrArg (List.drop 8) bytes
  rw [bodyOfFrame, bodyOfFrame] at behind
  simpa using behind

def callRequest (id : BitVec 64) (method : CString) (msg : Bytes) : PbcRpcRequest := ⟨id,method,some msg⟩

def callNode (clnt : Clnt ρ κ) (id : BitVec 64) (replymsg : ρ) (args : κ) : RpcNode ρ κ :=
  ⟨clnt.nodes,id.setWidth 32,replymsg,args⟩

theorem callRefused (pb : Protobuf) {memory : CallMemory} (lacks : memory.mth = false ∨ memory.entry = false)
    (idGen : BitVec 64) (clnt : Clnt ρ κ) (method : CString) (msg : Bytes) (replymsg : ρ) (args : κ) :
    (pbrpcClntCall pb memory idGen clnt method msg replymsg args).1 = -1 ∧
      (pbrpcClntCall pb memory idGen clnt method msg replymsg args).2.2 = clnt := by
  unfold pbrpcClntCall
  cases named : memory.mth with
  | false => exact ⟨rfl,rfl⟩
  | true =>
    cases linked : memory.entry with
    | false => exact ⟨rfl,rfl⟩
    | true => simp [named, linked] at lacks

theorem callLinked (pb : Protobuf) {memory : CallMemory} (named : memory.mth = true) (linked : memory.entry = true)
    (idGen : BitVec 64) (clnt : Clnt ρ κ) (method : CString) (msg : Bytes) (replymsg : ρ) (args : κ) :
    (pbrpcClntCall pb memory idGen clnt method msg replymsg args).1 = 0 ∧
      (pbrpcClntCall pb memory idGen clnt method msg replymsg args).2.2.outstanding =
        clnt.outstanding ++ [callNode clnt (nextId idGen).1 replymsg args] ∧
      (pbrpcClntCall pb memory idGen clnt method msg replymsg args).2.2.writes =
        clnt.writes ++ if memory.rbuf then
          [⟨some (packedBuffer pb.request (callRequest (nextId idGen).1 method msg)),
            pb.request.getPackedSize (callRequest (nextId idGen).1 method msg) + 8⟩] else [] := by
  unfold pbrpcClntCall
  simp only [if_pos named, if_pos linked, rpcWriteRequest]
  cases memory.rbuf with
  | false => exact ⟨trivial,rfl,by simp⟩
  | true => exact ⟨trivial,rfl,rfl⟩

theorem requestWritten {pb : Protobuf} (law : pb.request.Lawful) (req : PbcRpcRequest) :
    Write.bytes ⟨some (packedBuffer pb.request req),pb.request.getPackedSize req + 8⟩ =
      frame (pb.request.pack req) := by
  rw [bytesWhole _ (packedLength law req).symm, packedBufferFrame law]

/- A call is atomic exactly if it gets its buffer whenever it got its entry, and then the id comes back
from the entry. -/
theorem callAtomic {pb : Protobuf} (law : pb.request.Lawful) (memory : CallMemory) (idGen : BitVec 64)
    (clnt : Clnt ρ κ) (method : CString) (msg : Bytes) (replymsg : ρ) (args : κ) :
    CallAtomic pb method msg replymsg args clnt
        (pbrpcClntCall pb memory idGen clnt method msg replymsg args).1
        (pbrpcClntCall pb memory idGen clnt method msg replymsg args).2.2 ↔
      (memory.mth = true → memory.entry = true → memory.rbuf = true ∧ IdKept idGen) := by
  by_cases both : memory.mth = true ∧ memory.entry = true
  · obtain ⟨named,linked⟩ := both
    obtain ⟨zero,entries,writes⟩ := callLinked pb named linked idGen clnt method msg replymsg args
    constructor
    · intro atomic _ _
      obtain ⟨node,w,id,entered,_,_,wrote,answers,bytes⟩ := atomic.called zero
      rw [entries] at entered
      rw [writes] at wrote
      obtain rfl := (List.cons.inj (List.append_cancel_left entered)).1
      have one := List.append_cancel_left wrote
      cases built : memory.rbuf with
      | false =>
        rw [built] at one
        cases one
      | true =>
        rw [built] at one
        obtain rfl := (List.cons.inj one).1
        rw [requestWritten law] at bytes
        have same := law.packInjective (frameInjective bytes)
        have ids : (nextId idGen).1 = id := congrArg PbcRpcRequest.id same
        have back : ((nextId idGen).1.setWidth 32).signExtend 64 = id := beq_iff_eq.mp answers
        exact ⟨rfl,back.trans ids.symm⟩
    · intro h
      obtain ⟨built,kept⟩ := h named linked
      rw [built] at writes
      refine ⟨fun _ => ⟨_,_,(nextId idGen).1,entries,rfl,rfl,writes,beq_iff_eq.mpr kept,requestWritten law _⟩,?_⟩
      intro nonzero
      exact absurd zero nonzero
  · have lacks : memory.mth = false ∨ memory.entry = false := by
      cases named : memory.mth with
      | false => exact Or.inl rfl
      | true =>
        cases linked : memory.entry with
        | false => exact Or.inr rfl
        | true => exact absurd ⟨named,linked⟩ both
    obtain ⟨minus,same⟩ := callRefused pb lacks idGen clnt method msg replymsg args
    rw [minus, same]
    constructor
    · intro _ named linked
      exact absurd ⟨named,linked⟩ both
    · intro _
      exact ⟨fun zero => absurd zero (by decide),fun _ => ⟨rfl,rfl⟩⟩

theorem firstCall :
    CallAtomic PbrpcWire.wire (cstr "ping") [] () () (Clnt.new (ρ := Unit) (κ := Unit))
      (pbrpcClntCall PbrpcWire.wire ⟨true,true,true⟩ 0 .new (cstr "ping") [] () ()).1
      (pbrpcClntCall PbrpcWire.wire ⟨true,true,true⟩ 0 .new (cstr "ping") [] () ()).2.2 :=
  (callAtomic PbrpcWire.wireLawful.request ⟨true,true,true⟩ 0 .new (cstr "ping") [] () ()).mpr
    (fun _ _ => ⟨rfl,by decide⟩)

/- The third allocation of a call fails: it returns 0, its entry stays and nothing was written. -/
theorem entryLeft :
    (pbrpcClntCall PbrpcWire.wire ⟨true,true,false⟩ 0 (Clnt.new (ρ := Unit) (κ := Unit)) (cstr "ping") [] () ()).1 = 0 ∧
      (pbrpcClntCall PbrpcWire.wire ⟨true,true,false⟩ 0 (Clnt.new (ρ := Unit) (κ := Unit)) (cstr "ping") [] ()
        ()).2.2.outstanding = [⟨0,1,(),()⟩] ∧
      (pbrpcClntCall PbrpcWire.wire ⟨true,true,false⟩ 0 (Clnt.new (ρ := Unit) (κ := Unit)) (cstr "ping") [] ()
        ()).2.2.writes = [] ∧
      ¬ CallAtomic PbrpcWire.wire (cstr "ping") [] () () (Clnt.new (ρ := Unit) (κ := Unit))
        (pbrpcClntCall PbrpcWire.wire ⟨true,true,false⟩ 0 .new (cstr "ping") [] () ()).1
        (pbrpcClntCall PbrpcWire.wire ⟨true,true,false⟩ 0 .new (cstr "ping") [] () ()).2.2 := by
  refine ⟨rfl,rfl,rfl,?_⟩
  intro atomic
  obtain ⟨node,w,id,_,_,_,writes,_⟩ := atomic.called rfl
  cases writes

end VmpRl.WholeWrites
