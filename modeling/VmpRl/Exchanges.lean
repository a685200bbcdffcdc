import VmpRl.WholeWrites

/-! Requests put to the callouts one after the other, with no connection in between. A server that reads their frames
does the same and writes the responses. -/
namespace VmpRl.Exchanges
open Octets CRuntime PbrpcMessages PbrpcXdr PbrpcService WholeWrites

variable {ι δ : Type} {α : δ → Type} {σ : Type}

def exchanges (P : Platform δ α σ) (head : List (Callout δ α)) (request : ι → PbcRpcRequest) :
    List ι → σ → Run (List (ι × PbcRpcResponse) × σ)
  | [], w => .ok ([],w)
  | a :: rest, w => do
    let (_, rsp, w) ← rpcInvokeCall P head (some (request a)) .init w
    let (mem, w) := P.calloc w
    let (others, w) ← exchanges P head request rest w
    .ok (if mem then (a,rsp) :: others else others,w)

def requestBody (pb : Protobuf) (request : ι → PbcRpcRequest) (a : ι) : Bytes := pb.request.pack (request a)
def responseBody (pb : Protobuf) (e : ι × PbcRpcResponse) : Bytes := pb.response.pack e.2

structure Sized (pb : Protobuf) (P : Platform δ α σ) (head : List (Callout δ α)) (req : PbcRpcRequest) : Prop where
  request : pb.request.getPackedSize req + 8 < 2 ^ 31
  response : ∀ w r, rpcInvokeCall P head (some req) .init w = .ok r → pb.response.getPackedSize r.2.1 + 8 < 2 ^ 31

structure Answerable (pb : Protobuf) (P : Platform δ α σ) (head : List (Callout δ α)) (req : PbcRpcRequest) : Prop where
  returns : ∀ w, Returns (rpcInvokeCall P head (some req) .init w)
  sized : Sized pb P head req

section Invoked
variable {P : Platform δ α σ} {head : List (Callout δ α)}

theorem invokedId {req : PbcRpcRequest} {w : σ} {r : Int × PbcRpcResponse × σ}
    (invoked : rpcInvokeCall P head (some req) .init w = .ok r) : r.2.1.id = replyId req := by
  unfold replyId
  cases given : req.params with
  | none =>
    simp only [rpcInvokeCall, given] at invoked
    cases invoked
    rfl
  | some params =>
    simp only [rpcInvokeCall, given] at invoked
    rw [if_neg (by simp)]
    cases found : methodLookup req.method head with
    | error stop =>
      rw [found] at invoked
      cases invoked
    | ok s =>
      cases s with
      | none =>
        simp only [found, bind, Except.bind] at invoked
        cases invoked
        rfl
      | some s =>
        cases ran : P.exec s.dispatch s.scArgs params w with
        | error stop =>
          simp only [found, ran, bind, Except.bind] at invoked
          cases invoked
        | ok out =>
          simp only [found, ran, bind, Except.bind] at invoked
          cases invoked
          rfl

variable {request : ι → PbcRpcRequest}

theorem exchangesAppend {left right : List ι} {w x y : σ} {first second : List (ι × PbcRpcResponse)}
    (before : exchanges P head request left w = .ok (first,x))
    (after : exchanges P head request right x = .ok (second,y)) :
    exchanges P head request (left ++ right) w = .ok (first ++ second,y) := by
  induction left generalizing w first with
  | nil =>
    cases Except.ok.inj before
    exact after
  | cons a rest ih =>
    cases invoked : rpcInvokeCall P head (some (request a)) .init w with
    | error stop =>
      simp only [exchanges, invoked, bind, Except.bind] at before
      cases before
    | ok r =>
      cases later : exchanges P head request rest (P.calloc r.2.2).2 with
      | error stop =>
        simp only [exchanges, invoked, later, bind, Except.bind] at before
        cases before
      | ok others =>
        simp only [exchanges, invoked, later, bind, Except.bind] at before
        cases Except.ok.inj before
        simp only [List.cons_append, exchanges, invoked, ih later, bind, Except.bind]
        split
        · rfl
        · rfl

theorem exchangesAll (memory : ∀ w, (P.calloc w).1 = true) {asked : List ι} {w x : σ}
    {answers : List (ι × PbcRpcResponse)} (ran : exchanges P head request asked w = .ok (answers,x)) :
    answers.map Prod.fst = asked := by
  induction asked generalizing w answers with
  | nil =>
    cases Except.ok.inj ran
    rfl
  | cons a rest ih =>
    cases invoked : rpcInvokeCall P head (some (request a)) .init w with
    | error stop =>
      simp only [exchanges, invoked, bind, Except.bind] at ran
      cases ran
    | ok r =>
      cases later : exchanges P head request rest (P.calloc r.2.2).2 with
      | error stop =>
        simp only [exchanges, invoked, later, bind, Except.bind] at ran
        cases ran
      | ok others =>
        simp only [exchanges, invoked, later, memory, if_true, bind, Except.bind] at ran
        obtain ⟨rfl,rfl⟩ := Prod.mk.inj (Except.ok.inj ran)
        exact congrArg (List.cons a) (ih later)

end Invoked

theorem replyBytes {pb : Protobuf} (law : pb.Lawful) (memory : Bool) {rsp : PbcRpcResponse}
    (small : pb.response.getPackedSize rsp + 8 < 2 ^ 31) :
    (replyWrite pb memory rsp).bytes = if memory then frame (pb.response.pack rsp) else [] := by
  cases memory with
  | false => rfl
  | true =>
    rw [replyBuilt, if_pos rfl, bytesWhole _ ((toSizeToInt small).trans (packedLength law.response rsp).symm),
      packedBufferFrame law.response]

section Serving
variable {pb : Protobuf} (law : pb.Lawful) {P : Platform δ α σ} {head : List (Callout δ α)} {request : ι → PbcRpcRequest}

include law in
variable (request) in
theorem requestsSmall {asked : List ι} (answerable : ∀ a ∈ asked, Answerable pb P head (request a)) :
    ∀ a ∈ asked, Small (requestBody pb request a) := by
  intro a member
  have size := (answerable a member).sized.request
  rw [law.request.packedSize] at size
  show 8 + (pb.request.pack (request a)).length < 2 ^ 31
  omega

include law in
theorem serveExchanges {asked : List ι} (answerable : ∀ a ∈ asked, Answerable pb P head (request a)) (c : Conn σ) :
    ∃ answers out, exchanges P head request asked c.world = .ok (answers,out.world) ∧
      (asked.map (requestBody pb request)).foldlM
        (fun c body => serveRequest pb P head (pb.request.unpack body) c) c = .ok out ∧
      out.reads = c.reads ++ asked.map (fun a => some (request a)) ∧
      writtenBytes out.writes = writtenBytes c.writes ++ frames (answers.map (responseBody pb)) ∧
      (∀ e ∈ answers, Small (responseBody pb e)) ∧ (∀ e ∈ answers, e.2.id = replyId (request e.1)) ∧
      (answers.map Prod.fst).Sublist asked := by
  induction asked generalizing c with
  | nil => exact ⟨[],c,rfl,rfl,by simp,by simp [frames],by simp,by simp,List.Sublist.refl _⟩
  | cons a rest ih =>
    obtain ⟨⟨ret,rsp,after⟩,invoked⟩ := (answerable a List.mem_cons_self).returns c.world
    have id : rsp.id = replyId (request a) := invokedId invoked
    have size := (answerable a List.mem_cons_self).sized.response _ _ invoked
    have served := serveInvoked pb invoked
    obtain ⟨answers,out,ran,folded,reads,written,small,numbered,order⟩ :=
      ih (fun b member => answerable b (List.mem_cons_of_mem _ member)) ⟨(P.calloc after).2,
        c.reads ++ [some (request a)],c.writes ++ [replyWrite pb (P.calloc after).1 rsp]⟩
    rw [writtenSnoc, replyBytes law _ size] at written
    refine ⟨if (P.calloc after).1 then (a,rsp) :: answers else answers,out,?_,?_,?_,?_⟩
    · simp only [exchanges, invoked, ran, bind, Except.bind]
    · rw [List.map_cons, List.foldlM_cons]
      simp only [requestBody, law.request.unpackPack, served, bind, Except.bind]
      exact folded
    · rw [reads, List.append_assoc]
      rfl
    · cases memory : (P.calloc after).1 with
      | false =>
        rw [memory] at written
        exact ⟨by simpa using written,small,numbered,order.cons a⟩
      | true =>
        rw [memory] at written
        refine ⟨?_,?_,?_,order.cons_cons a⟩
        · rw [written]
          simp [frames, responseBody]
        · intro e member
          rcases List.mem_cons.mp member with same | later
          · rw [same]
            show 8 + (pb.response.pack rsp).length < 2 ^ 31
            rw [← law.response.packedSize, Nat.add_comm]
            exact size
          · exact small e later
        · intro e member
          rcases List.mem_cons.mp member with same | later
          · rw [same]
            exact id
          · exact numbered e later

end Serving
end VmpRl.Exchanges
