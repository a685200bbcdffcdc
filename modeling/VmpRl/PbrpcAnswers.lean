import Mathlib.Data.List.Basic
import VmpRl.PbrpcFraming

/-! What `generic_read_cb` and `process_request` write for a buffer of request frames. -/
namespace VmpRl.PbrpcAnswers
open Octets CRuntime PbrpcMessages PbrpcXdr PbrpcService PbrpcFraming PbrpcWire

variable {δ : Type} {α : δ → Type} {σ : Type}

def responses (P : Platform δ α σ) (head : List (Callout δ α)) :
    List PbcRpcRequest → σ → Run (List PbcRpcResponse)
  | [], _ => .ok []
  | req :: rest, w => do
    let (_, rsp, w) ← rpcInvokeCall P head (some req) .init w
    let others ← responses P head rest (P.calloc w).2
    .ok (rsp :: others)

def Answered (pb : Protobuf) (requests : List PbcRpcRequest) (before after : Conn σ) : Prop :=
  ∃ rsps : List PbcRpcResponse, (∀ rsp ∈ rsps, Small (pb.response.pack rsp)) ∧
    after.written = before.written ++ frames (rsps.map pb.response.pack) ∧
    rsps.map PbcRpcResponse.id = requests.map PbcRpcRequest.id

/- What the filter lets through: its count of the bytes moved is an int. -/
def Admitted (body : Bytes) : Prop :=
  ∀ rest dst, (filterPbrpcMessages ⟨frame body ++ rest,dst⟩).1 = .ok

theorem admittedSmall {body : Bytes} (addressable : 8 + body.length < 2 ^ 63) (h : Admitted body) :
    Small body := by
  have once := h [] []
  have size : (frame body ++ []).length = 8 + body.length := by rw [List.append_nil, frameSize]
  have pulled : evbufferPullup (frame body ++ []) 8 = some (be 8 body.length) := by
    rw [evbufferPullup, if_pos (by omega), headerOfFrame]
  simp only [filterPbrpcMessages, pulled] at once
  rw [readBEWritten 8 _ (by simp; omega), Nat.mod_eq_of_lt (by omega), size,
    if_neg (Nat.lt_irrefl _)] at once
  simp only [evbufferRemoveBuffer, size, Nat.min_self] at once
  split at once
  · cases once
  · rename_i same
    exact (survivesSmall (by omega)).mp (not_not.mp same)

theorem serveAll {pb : Protobuf} (law : pb.Lawful) (P : Platform δ α σ) (head : List (Callout δ α))
    (sound : Sound P head) (memory : ∀ w, (P.calloc w).1 = true) (requests : List PbcRpcRequest)
    (c : Conn σ) :
    ∃ rsps out, responses P head requests c.world = .ok rsps ∧
      requests.foldlM (fun c req => serveRequest pb P head (some req) c) c = .ok out ∧
      rsps.map PbcRpcResponse.id = requests.map replyId ∧
      out.writes = c.writes ++ rsps.map (fun rsp => ⟨some (frame (pb.response.pack rsp)),
        toSize (toInt (frame (pb.response.pack rsp)).length)⟩) := by
  induction requests generalizing c with
  | nil => exact ⟨[],c,rfl,rfl,rfl,by simp⟩
  | cons req rest ih =>
    obtain ⟨ret,rsp,after,next,invoked,id,served,world,writes⟩ :=
      serveReturns pb P head law sound memory req c
    obtain ⟨rsps,out,answered,ran,ids,written⟩ := ih next
    rw [world] at answered
    refine ⟨rsp :: rsps,out,?_,?_,by simp [id, ids],by simp [written, writes]⟩
    · simp only [responses, invoked, answered, bind, Except.bind]
    · simp only [List.foldlM_cons, served, bind, Except.bind]
      exact ran

theorem serveAllWritten {pb : Protobuf} {rsps : List PbcRpcResponse} {before after : Conn σ}
    (small : ∀ rsp ∈ rsps, Small (pb.response.pack rsp))
    (writes : after.writes = before.writes ++ rsps.map (fun rsp =>
      ⟨some (frame (pb.response.pack rsp)),toSize (toInt (frame (pb.response.pack rsp)).length)⟩)) :
    after.written = before.written ++ frames (rsps.map pb.response.pack) := by
  rw [Conn.written, writes, writtenAppend]
  congr 1
  clear writes
  induction rsps with
  | nil => rfl
  | cons rsp rest ih =>
    have first := wholeWrite (small rsp List.mem_cons_self)
    have later := ih (fun r member => small r (List.mem_cons_of_mem _ member))
    simp only [writtenBytes, List.map_cons, List.flatten_cons, first] at later ⊢
    rw [later]
    simp [frames, frame]

theorem answeredIds {pb : Protobuf} (law : pb.Lawful) {left right : List PbcRpcResponse}
    (smallLeft : ∀ rsp ∈ left, Small (pb.response.pack rsp))
    (smallRight : ∀ rsp ∈ right, Small (pb.response.pack rsp))
    (same : frames (left.map pb.response.pack) = frames (right.map pb.response.pack)) :
    left = right := by
  have bounded : ∀ rsps : List PbcRpcResponse, (∀ rsp ∈ rsps, Small (pb.response.pack rsp)) →
      ∀ b ∈ rsps.map pb.response.pack, b.length < lengthPrefix.bound := by
    intro rsps small b member
    obtain ⟨rsp,present,rfl⟩ := List.mem_map.mp member
    exact smallBound (small rsp present)
  have bodies := Framing.framesInjective lengthPrefix (bounded left smallLeft)
    (bounded right smallRight) same
  exact List.map_injective_iff.mpr (fun _ _ packed => law.response.packInjective packed) bodies

theorem smallAdmitted {body : Bytes} (small : Small body) : Admitted body := fun rest dst =>
  congrArg Prod.fst (filterFrame small rest dst)

theorem bufferServed {pb : Protobuf} (law : pb.Lawful) (P : Platform δ α σ)
    (head : List (Callout δ α)) (sound : Sound P head) (memory : ∀ w, (P.calloc w).1 = true)
    (bodies : List Bytes) (requests : List PbcRpcRequest)
    (unpacked : bodies.map pb.request.unpack = requests.map some)
    (small : ∀ body ∈ bodies, Small body) (c : Conn σ)
    (sized : ∀ rsps, responses P head requests c.world = .ok rsps →
      ∀ rsp ∈ rsps, pb.response.getPackedSize rsp + 8 < 2 ^ 31) :
    ∃ (rsps : List PbcRpcResponse) (out : Conn σ),
      genericReadCb true (processRequest pb P head) (frames bodies) c = .ok ([],out) ∧
      (∀ rsp ∈ rsps, Small (pb.response.pack rsp)) ∧
      out.written = c.written ++ frames (rsps.map pb.response.pack) ∧
      rsps.map PbcRpcResponse.id = requests.map replyId := by
  have read := readCbFrames _ (fun _ small => small) (processTakesFrame pb P head) bodies small c
  obtain ⟨rsps,out,answered,ran,ids,writes⟩ := serveAll law P head sound memory requests c
  have serving : (bodies.map pb.request.unpack).foldlM (fun c req => serveRequest pb P head req c) c =
      .ok out := by
    rw [unpacked, List.foldlM_map]
    exact ran
  rw [List.foldlM_map] at serving
  rw [serving] at read
  have replySmall : ∀ rsp ∈ rsps, Small (pb.response.pack rsp) := by
    intro rsp member
    have size := sized rsps answered rsp member
    rw [law.response.packedSize] at size
    show 8 + (pb.response.pack rsp).length < 2 ^ 31
    omega
  exact ⟨rsps,out,read,replySmall,serveAllWritten replySmall writes,ids⟩

theorem answeredExactly {pb : Protobuf} (law : pb.Lawful) {requests : List PbcRpcRequest}
    {rsps : List PbcRpcResponse} {before after : Conn σ}
    (small : ∀ rsp ∈ rsps, Small (pb.response.pack rsp))
    (written : after.written = before.written ++ frames (rsps.map pb.response.pack))
    (ids : rsps.map PbcRpcResponse.id = requests.map replyId) :
    Answered pb requests before after ↔ ∀ req ∈ requests, req.params = none → req.id = 0 := by
  have own : requests.map replyId = requests.map PbcRpcRequest.id ↔
      ∀ req ∈ requests, req.params = none → req.id = 0 := by
    rw [List.map_inj_left]
    constructor
    · intro same req member absent
      have equal := same req member
      simpa [replyId, absent] using equal.symm
    · intro zero req member
      cases hp : req.params with
      | none => simp [replyId, hp, zero req member hp]
      | some params => simp [replyId, hp]
  rw [← own, ← ids]
  constructor
  · intro h
    obtain ⟨others,smallOthers,writtenOthers,idsOthers⟩ := h
    rw [written] at writtenOthers
    rw [answeredIds law small smallOthers (List.append_cancel_left writtenOthers), idsOthers]
  · intro same
    exact ⟨rsps,small,written,same⟩

/- The requests of admitted frames are answered one by one with their own Ids exactly when
those that lack params have the Id 0 already. -/
theorem oneResponsePerRequest {pb : Protobuf} (law : pb.Lawful) (P : Platform δ α σ)
    (head : List (Callout δ α)) (sound : Sound P head) (memory : ∀ w, (P.calloc w).1 = true)
    (bodies : List Bytes) (requests : List PbcRpcRequest)
    (unpacked : bodies.map pb.request.unpack = requests.map some)
    (addressable : ∀ body ∈ bodies, 8 + body.length < 2 ^ 63)
    (admitted : ∀ body ∈ bodies, Admitted body) (c : Conn σ)
    (sized : ∀ rsps, responses P head requests c.world = .ok rsps →
      ∀ rsp ∈ rsps, pb.response.getPackedSize rsp + 8 < 2 ^ 31) :
    (∃ out, genericReadCb true (processRequest pb P head) (frames bodies) c = .ok ([],out) ∧
      Answered pb requests c out) ↔ ∀ req ∈ requests, req.params = none → req.id = 0 := by
  have small : ∀ body ∈ bodies, Small body := fun body member =>
    admittedSmall (addressable body member) (admitted body member)
  obtain ⟨rsps,out,read,replySmall,written,ids⟩ :=
    bufferServed law P head sound memory bodies requests unpacked small c sized
  rw [← answeredExactly law replySmall written ids]
  constructor
  · intro h
    obtain ⟨other,readOther,answered⟩ := h
    rw [read] at readOther
    rwa [← (Prod.mk.inj (Except.ok.inj readOther)).2] at answered
  · intro answered
    exact ⟨out,read,answered⟩

def echo : Platform Unit (fun _ => Unit) Unit := ⟨fun _ _ params w => .ok (0,params,w),fun w => (true,w)⟩
def echoHead : List (Callout Unit (fun _ => Unit)) := [⟨1,1,some (cstr "ping"),(),()⟩]
def pang : PbcRpcRequest := ⟨8,cstr "pang",some []⟩

theorem echoSound : Sound echo echoHead where
  named s member := by
    obtain rfl := List.mem_singleton.mp member
    decide
  returning _ _ _ _ := ⟨_,rfl⟩

theorem pingAndPangAnswered :
    ∃ out, genericReadCb true (processRequest wire echo echoHead)
        (frames [wire.request.pack ping,wire.request.pack pang]) ⟨(),[],[]⟩ = .ok ([],out) ∧
      Answered wire [ping,pang] ⟨(),[],[]⟩ out := by
  have small : ∀ body ∈ [wire.request.pack ping,wire.request.pack pang], 8 + body.length < 2 ^ 31 := by
    decide
  have exactly := oneResponsePerRequest wireLawful echo echoHead echoSound (fun _ => rfl)
    [wire.request.pack ping,wire.request.pack pang] [ping,pang]
    (by simp [wireLawful.request.unpackPack]) (fun body member => Nat.lt_trans (small body member) (by decide))
    (fun body member => smallAdmitted (small body member)) ⟨(),[],[]⟩ (by
      intro rsps answered
      cases Except.ok.inj answered
      decide)
  exact exactly.mpr (by decide)

def bare : PbcRpcRequest := ⟨7,cstr "ping",none⟩

theorem bareRequestMisnumbered :
    ∃ out, genericReadCb true (processRequest wire echo echoHead) (frames [wire.request.pack bare])
        ⟨(),[],[]⟩ = .ok ([],out) ∧ ¬ Answered wire [bare] ⟨(),[],[]⟩ out := by
  have small : ∀ body ∈ [wire.request.pack bare], 8 + body.length < 2 ^ 31 := by decide
  obtain ⟨rsps,out,read,replySmall,written,ids⟩ := bufferServed wireLawful echo echoHead echoSound
    (fun _ => rfl) [wire.request.pack bare] [bare] (by simp [wireLawful.request.unpackPack]) small
    ⟨(),[],[]⟩ (by
      intro rsps answered
      cases Except.ok.inj answered
      decide)
  refine ⟨out,read,?_⟩
  rw [answeredExactly wireLawful replySmall written ids]
  decide

end VmpRl.PbrpcAnswers
