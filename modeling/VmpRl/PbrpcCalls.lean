import Mathlib.Data.List.Forall2
import VmpRl.Base.Ledger
import VmpRl.PbrpcClient

/-! Runs of a client process: its calls, the calls its other clients make in between, and
whatever buffers reach `process_response`. The 64-bit ids of the calls are remembered
beside the code's state, whose entries keep 32 bits of them. -/
namespace VmpRl.PbrpcCalls
open Octets CRuntime PbrpcMessages PbrpcXdr PbrpcClient Transition

structure Call (ρ κ : Type) where
  entry : Nat
  id : BitVec 64
  replymsg : ρ
  ctx : κ
  sent : Bool
  deriving DecidableEq, Repr

variable {ρ κ : Type}

def Call.node (c : Call ρ κ) : RpcNode ρ κ := ⟨c.entry,c.id.setWidth 32,c.replymsg,c.ctx⟩

@[simp] theorem nodeEntry (c : Call ρ κ) : c.node.entry = c.entry := rfl

def Call.reply (c : Call ρ κ) (result : Bytes) : Reply ρ κ := ⟨c.entry,c.replymsg,c.ctx,result,0⟩

structure Process (ρ κ : Type) where
  idGen : BitVec 64
  clnt : Clnt ρ κ
  calls : List (Call ρ κ)

def Process.new : Process ρ κ := ⟨0,.new,[]⟩

/- `elsewhere` is a `pbrpc_clnt_call` on another client: the ids are drawn from one generator. -/
inductive Event (ρ κ : Type) where
  | call (memory : CallMemory) (method : CString) (msg : Bytes) (replymsg : ρ) (args : κ)
  | elsewhere
  | receive (msg : Bytes)

/- The run is followed while fewer than 2^63 ids were drawn. -/
def step (pb : Protobuf) (p : Process ρ κ) : Event ρ κ → Option (Process ρ κ)
  | .call memory method msg replymsg args =>
    if p.idGen.toNat + 1 < 2 ^ 63 then
      let (ret, idGen, clnt) := pbrpcClntCall pb memory p.idGen p.clnt method msg replymsg args
      let call : Call ρ κ := ⟨p.clnt.nodes,(nextId p.idGen).1,replymsg,args,memory.rbuf⟩
      some ⟨idGen,clnt,if ret = 0 then p.calls ++ [call] else p.calls⟩
    else none
  | .elsewhere => if p.idGen.toNat + 1 < 2 ^ 63 then some {p with idGen := (nextId p.idGen).2} else none
  | .receive msg => match processResponse pb msg p.clnt with
    | .ok (_, clnt) => some {p with clnt := clnt}
    | .error _ => none

def system (pb : Protobuf) : System (Process ρ κ) (Event ρ κ) := ⟨(· = .new),step pb⟩

theorem unlinkSplit {id : BitVec 64} {before : List (RpcNode ρ κ)} {call : RpcNode ρ κ}
    (others : ∀ n ∈ before, n.answers id = false) (found : call.answers id = true)
    (after : List (RpcNode ρ κ)) :
    unlink id (before ++ call :: after) = some (call,before ++ after) := by
  induction before with
  | nil => simp [unlink, found]
  | cons n rest ih =>
    have later := ih (fun m member => others m (List.mem_cons_of_mem _ member))
    simp [unlink, others n List.mem_cons_self, later]

theorem unlinkNone {id : BitVec 64} {nodes : List (RpcNode ρ κ)}
    (others : ∀ n ∈ nodes, n.answers id = false) : unlink id nodes = none := by
  induction nodes with
  | nil => rfl
  | cons n rest ih =>
    have later := ih (fun m member => others m (List.mem_cons_of_mem _ member))
    simp [unlink, others n List.mem_cons_self, later]

/- The entry of a call answers to exactly the ids below 2^31 that have its low 32 bits. -/
theorem nodeAnswers (c : Call ρ κ) {id : BitVec 64} (drawn : id.toNat < 2 ^ 63) :
    c.node.answers id = true ↔ c.id.toNat % 2 ^ 32 = id.toNat ∧ id.toNat < 2 ^ 31 := by
  simp only [RpcNode.answers, Call.node, beq_iff_eq]
  rw [← BitVec.toNat_inj, BitVec.toNat_signExtend]
  simp [BitVec.msb_eq_decide]
  split <;> omega

theorem ownAnswer (c : Call ρ κ) (drawn : c.id.toNat < 2 ^ 63) :
    c.node.answers c.id = true ↔ c.id.toNat < 2 ^ 31 := by
  rw [nodeAnswers c drawn]
  omega

theorem earlierSilent {c d : Call ρ κ} (drawn : d.id.toNat < 2 ^ 63)
    (earlier : c.id.toNat < d.id.toNat) : c.node.answers d.id = false := by
  rw [Bool.eq_false_iff]
  intro answers
  obtain ⟨low,_⟩ := (nodeAnswers c drawn).mp answers
  omega

def Ordered (calls : List (Call ρ κ)) : Prop := calls.Pairwise (fun c d => c.id.toNat < d.id.toNat)

theorem unlinkCall {before after : List (Call ρ κ)} {c : Call ρ κ}
    (ordered : Ordered (before ++ c :: after)) (drawn : c.id.toNat < 2 ^ 63)
    (small : c.id.toNat < 2 ^ 31) :
    unlink c.id ((before ++ c :: after).map Call.node) =
      some (c.node,(before ++ after).map Call.node) := by
  have earlier := (List.pairwise_append.mp ordered).2.2
  rw [List.map_append, List.map_cons, List.map_append]
  apply unlinkSplit
  · intro n member
    obtain ⟨d,present,rfl⟩ := List.mem_map.mp member
    exact earlierSilent drawn (earlier d present c List.mem_cons_self)
  · exact (ownAnswer c drawn).mpr small

theorem unlinkLarge (calls : List (Call ρ κ)) {id : BitVec 64} (drawn : id.toNat < 2 ^ 63)
    (large : 2 ^ 31 ≤ id.toNat) : unlink id (calls.map Call.node) = none := by
  apply unlinkNone
  intro n member
  obtain ⟨c,_,rfl⟩ := List.mem_map.mp member
  rw [Bool.eq_false_iff]
  intro answers
  have small := ((nodeAnswers c drawn).mp answers).2
  omega

/- The process against the ledger of its calls: the entries are those of the pending calls, the
reply callbacks that ran are those of the completed ones. -/
structure Issued (p : Process ρ κ) (l : Ledger (Call ρ κ)) : Prop where
  below : p.idGen.toNat < 2 ^ 63
  calls : p.calls = l.issued
  ledger : (Ledger.system _).Reachable l
  drawn : ∀ c ∈ p.calls, c.id.toNat ≤ p.idGen.toNat
  ordered : Ordered p.calls
  allocated : ∀ c ∈ p.calls, c.entry < p.clnt.nodes
  entries : p.calls.Pairwise (fun c d => c.entry < d.entry)
  outstanding : p.clnt.outstanding = l.pending.map Call.node
  replies : List.Forall₂ (fun reply c => ∃ result, reply = Call.reply c result) p.clnt.replies l.done

theorem nextIdSucc {idGen : BitVec 64} (room : idGen.toNat + 1 < 2 ^ 63) :
    (idGen + 1).toNat = idGen.toNat + 1 := by
  rw [BitVec.toNat_add]
  simp
  omega

theorem stepCall {pb : Protobuf} {p q : Process ρ κ} {memory : CallMemory} {method : CString}
    {msg : Bytes} {replymsg : ρ} {args : κ}
    (h : step pb p (.call memory method msg replymsg args) = some q) :
    p.idGen.toNat + 1 < 2 ^ 63 ∧ q.clnt.replies = p.clnt.replies ∧
    (((q.idGen = p.idGen ∨ q.idGen = p.idGen + 1) ∧ (memory.mth && memory.entry) = false ∧
        q.calls = p.calls ∧ q.clnt.outstanding = p.clnt.outstanding ∧ q.clnt.nodes = p.clnt.nodes) ∨
      ∃ c : Call ρ κ, c = ⟨p.clnt.nodes,p.idGen + 1,replymsg,args,memory.rbuf⟩ ∧
        (memory.mth && memory.entry) = true ∧ q.idGen = p.idGen + 1 ∧ q.calls = p.calls ++ [c] ∧
        q.clnt.outstanding = p.clnt.outstanding ++ [c.node] ∧ q.clnt.nodes = p.clnt.nodes + 1) := by
  simp only [step] at h
  split at h
  · rename_i room
    cases Option.some.inj h
    refine ⟨room,?_,?_⟩
    · unfold pbrpcClntCall rpcWriteRequest
      split <;> try rfl
      dsimp only
      split <;> try rfl
      split <;> rfl
    · cases hm : memory.mth with
      | false => exact Or.inl (by simp [pbrpcClntCall, hm])
      | true =>
        cases he : memory.entry with
        | false => exact Or.inl (by simp [pbrpcClntCall, hm, he, nextId])
        | true =>
          refine Or.inr ⟨_,rfl,rfl,?_⟩
          simp only [pbrpcClntCall, hm, he, nextId, if_true, rpcWriteRequest, Call.node]
          split <;> simp
  · cases h

theorem handleCases (rsp : Option PbcRpcResponse) (clnt : Clnt ρ κ) :
    (handleResponse rsp clnt).nodes = clnt.nodes ∧
    (((handleResponse rsp clnt).outstanding = clnt.outstanding ∧
        (handleResponse rsp clnt).replies = clnt.replies ∧
        ∀ r, rsp = some r → unlink r.id clnt.outstanding = none) ∨
      ∃ r call rest, rsp = some r ∧ unlink r.id clnt.outstanding = some (call,rest) ∧
        (handleResponse rsp clnt).outstanding = rest ∧
        (handleResponse rsp clnt).replies =
          clnt.replies ++ [⟨call.entry,call.replymsg,call.ctx,r.result,0⟩]) := by
  unfold handleResponse
  cases rsp with
  | none => simp
  | some r =>
    cases hu : unlink r.id clnt.outstanding with
    | none => simp [hu]
    | some found =>
      obtain ⟨call,rest⟩ := found
      simp only [hu]
      exact ⟨trivial,Or.inr ⟨r,call,rest,rfl,hu,rfl,rfl⟩⟩

theorem unlinkFound {id : BitVec 64} {nodes rest : List (RpcNode ρ κ)} {call : RpcNode ρ κ}
    (h : unlink id nodes = some (call,rest)) :
    ∃ before after, nodes = before ++ call :: after ∧ rest = before ++ after := by
  induction nodes generalizing rest with
  | nil => simp [unlink] at h
  | cons n nodes ih =>
    simp only [unlink] at h
    split at h
    · cases Option.some.inj h
      exact ⟨[],nodes,rfl,rfl⟩
    · obtain ⟨found,later,same⟩ := Option.map_eq_some_iff.mp h
      cases same
      obtain ⟨before,after,rfl,kept⟩ := ih later
      exact ⟨n :: before,after,rfl,by rw [kept]; rfl⟩

theorem Issued.fresh {p : Process ρ κ} {l : Ledger (Call ρ κ)} (i : Issued p l) {c : Call ρ κ}
    (next : c.entry = p.clnt.nodes) : c ∉ l.issued := by
  intro member
  rw [← i.calls] at member
  have old := i.allocated c member
  omega

theorem Issued.pendingOnce {p : Process ρ κ} {l : Ledger (Call ρ κ)} (i : Issued p l) :
    l.pending.Nodup := by
  have b := Ledger.balanced i.ledger
  rw [b.pendingRest]
  exact b.issuedOnce.filter _

theorem Issued.pendingOrdered {p : Process ρ κ} {l : Ledger (Call ρ κ)} (i : Issued p l) :
    Ordered l.pending := by
  rw [(Ledger.balanced i.ledger).pendingRest, ← i.calls]
  exact i.ordered.filter _

theorem Issued.pendingCalls {p : Process ρ κ} {l : Ledger (Call ρ κ)} (i : Issued p l) {c : Call ρ κ}
    (pending : c ∈ l.pending) : c ∈ p.calls := by
  rw [(Ledger.balanced i.ledger).pendingRest] at pending
  rw [i.calls]
  exact (List.mem_filter.mp pending).1

theorem Issued.sameId {p : Process ρ κ} {l : Ledger (Call ρ κ)} (i : Issued p l) {c d : Call ρ κ}
    (left : c ∈ p.calls) (right : d ∈ p.calls) (same : c.id = d.id) : c = d := by
  have apart : (p.calls.map Call.id).Nodup :=
    List.pairwise_map.mpr (i.ordered.imp (fun less same => Nat.ne_of_lt less (congrArg _ same)))
  exact List.inj_on_of_nodup_map apart left right same

theorem Issued.sameEntry {p : Process ρ κ} {l : Ledger (Call ρ κ)} (i : Issued p l) {c d : Call ρ κ}
    (left : c ∈ p.calls) (right : d ∈ p.calls) (same : c.entry = d.entry) : c = d := by
  have apart : (p.calls.map Call.entry).Nodup := List.pairwise_map.mpr (i.entries.imp Nat.ne_of_lt)
  exact List.inj_on_of_nodup_map apart left right same

theorem Issued.passed {p q : Process ρ κ} {l : Ledger (Call ρ κ)} (i : Issued p l)
    (grown : p.idGen.toNat ≤ q.idGen.toNat) (below : q.idGen.toNat < 2 ^ 63) (calls : q.calls = p.calls)
    (outstanding : q.clnt.outstanding = p.clnt.outstanding) (nodes : q.clnt.nodes = p.clnt.nodes)
    (replies : q.clnt.replies = p.clnt.replies) : Issued q l := by
  refine ⟨below,by rw [calls, i.calls],i.ledger,?_,by rw [calls]; exact i.ordered,?_,
    by rw [calls]; exact i.entries,by rw [outstanding, i.outstanding],by rw [replies]; exact i.replies⟩
  · intro d member
    rw [calls] at member
    exact Nat.le_trans (i.drawn d member) grown
  · intro d member
    rw [calls] at member
    rw [nodes]
    exact i.allocated d member

theorem Issued.enrolled {p q : Process ρ κ} {l : Ledger (Call ρ κ)} (i : Issued p l) {c : Call ρ κ}
    (entry : c.entry = p.clnt.nodes) (id : c.id.toNat = p.idGen.toNat + 1)
    (drawn : q.idGen.toNat = p.idGen.toNat + 1) (below : q.idGen.toNat < 2 ^ 63)
    (calls : q.calls = p.calls ++ [c]) (outstanding : q.clnt.outstanding = p.clnt.outstanding ++ [c.node])
    (nodes : q.clnt.nodes = p.clnt.nodes + 1) (replies : q.clnt.replies = p.clnt.replies) :
    Issued q {l with issued := l.issued ++ [c], pending := l.pending ++ [c]} := by
  have added := Ledger.issueStep (i.fresh entry)
  refine ⟨below,by rw [calls, i.calls],i.ledger.next added,?_,?_,?_,?_,?_,by rw [replies]; exact i.replies⟩
  · intro d member
    rw [calls] at member
    rcases List.mem_append.mp member with old | new
    · have bound := i.drawn d old
      omega
    · obtain rfl := List.mem_singleton.mp new
      omega
  · rw [calls]
    refine List.pairwise_append.mpr ⟨i.ordered,List.pairwise_singleton _ _,?_⟩
    intro d old e new
    obtain rfl := List.mem_singleton.mp new
    have bound := i.drawn d old
    omega
  · intro d member
    rw [calls] at member
    rw [nodes]
    rcases List.mem_append.mp member with old | new
    · exact Nat.lt_succ_of_lt (i.allocated d old)
    · obtain rfl := List.mem_singleton.mp new
      omega
  · rw [calls]
    refine List.pairwise_append.mpr ⟨i.entries,List.pairwise_singleton _ _,?_⟩
    intro d old e new
    obtain rfl := List.mem_singleton.mp new
    have bound := i.allocated d old
    omega
  · rw [outstanding, i.outstanding]
    simp

theorem issuedCall {pb : Protobuf} {p q : Process ρ κ} {l : Ledger (Call ρ κ)} (i : Issued p l)
    {memory : CallMemory} {method : CString} {msg : Bytes} {replymsg : ρ} {args : κ}
    (h : step pb p (.call memory method msg replymsg args) = some q) :
    q.clnt.replies = p.clnt.replies ∧
    (((memory.mth && memory.entry) = false ∧ q.calls = p.calls ∧ Issued q l) ∨
      ∃ c : Call ρ κ, c = ⟨p.clnt.nodes,p.idGen + 1,replymsg,args,memory.rbuf⟩ ∧
        (memory.mth && memory.entry) = true ∧ c.id.toNat = p.idGen.toNat + 1 ∧
        q.calls = p.calls ++ [c] ∧
        Issued q {l with issued := l.issued ++ [c], pending := l.pending ++ [c]}) := by
  obtain ⟨room,replies,⟨gen,unmade,calls,outstanding,nodes⟩ | ⟨c,call,made,gen,calls,outstanding,nodes⟩⟩ :=
    stepCall h
  · have grown : p.idGen.toNat ≤ q.idGen.toNat ∧ q.idGen.toNat < 2 ^ 63 := by
      rcases gen with same | next
      · rw [same]
        exact ⟨Nat.le_refl _,i.below⟩
      · rw [next, nextIdSucc room]
        exact ⟨Nat.le_succ _,room⟩
    exact ⟨replies,Or.inl ⟨unmade,calls,i.passed grown.1 grown.2 calls outstanding nodes replies⟩⟩
  · have id : c.id.toNat = p.idGen.toNat + 1 := by
      rw [call]
      exact nextIdSucc room
    have entry : c.entry = p.clnt.nodes := by rw [call]
    have drawn : q.idGen.toNat = p.idGen.toNat + 1 := by
      rw [gen]
      exact nextIdSucc room
    exact ⟨replies,Or.inr ⟨c,call,made,id,calls,
      i.enrolled entry id drawn (by omega) calls outstanding nodes replies⟩⟩

theorem issuedElsewhere {pb : Protobuf} {p q : Process ρ κ} {l : Ledger (Call ρ κ)} (i : Issued p l)
    (h : step pb p .elsewhere = some q) : q.clnt = p.clnt ∧ q.calls = p.calls ∧ Issued q l := by
  simp only [step] at h
  split at h
  · rename_i room
    cases Option.some.inj h
    have drawn := nextIdSucc room
    refine ⟨rfl,rfl,by simp only [nextId, drawn]; exact room,i.calls,i.ledger,?_,i.ordered,
      i.allocated,i.entries,i.outstanding,i.replies⟩
    intro c member
    have old := i.drawn c member
    simp only [nextId]
    omega
  · cases h

theorem Issued.unchanged {p : Process ρ κ} {l : Ledger (Call ρ κ)} (i : Issued p l) {clnt : Clnt ρ κ}
    (nodes : clnt.nodes = p.clnt.nodes) (outstanding : clnt.outstanding = p.clnt.outstanding)
    (replies : clnt.replies = p.clnt.replies) : Issued {p with clnt := clnt} l :=
  ⟨i.below,i.calls,i.ledger,i.drawn,i.ordered,by rw [nodes]; exact i.allocated,i.entries,
    by rw [outstanding]; exact i.outstanding,by rw [replies]; exact i.replies⟩

theorem Issued.completed {p : Process ρ κ} {l : Ledger (Call ρ κ)} (i : Issued p l) {clnt : Clnt ρ κ}
    {before after : List (Call ρ κ)} {c : Call ρ κ} (result : Bytes)
    (pending : l.pending = before ++ c :: after) (nodes : clnt.nodes = p.clnt.nodes)
    (outstanding : clnt.outstanding = (before ++ after).map Call.node)
    (replies : clnt.replies = p.clnt.replies ++ [c.reply result]) :
    Issued {p with clnt := clnt} {l with pending := before ++ after, done := l.done ++ [c]} := by
  have completed := Ledger.completeStep pending i.pendingOnce
  refine ⟨i.below,i.calls,i.ledger.next completed,i.drawn,i.ordered,by rw [nodes]; exact i.allocated,
    i.entries,outstanding,?_⟩
  rw [replies]
  exact List.rel_append i.replies (List.Forall₂.cons ⟨result,rfl⟩ List.Forall₂.nil)

theorem issuedReceive {p : Process ρ κ} {l : Ledger (Call ρ κ)} (i : Issued p l)
    (rsp : Option PbcRpcResponse) :
    ∃ m, Issued {p with clnt := handleResponse rsp p.clnt} m := by
  obtain ⟨nodes,⟨outstanding,replies,_⟩ | ⟨r,call,rest,_,found,outstanding,replies⟩⟩ :=
    handleCases rsp p.clnt
  · exact ⟨l,i.unchanged nodes outstanding replies⟩
  · obtain ⟨before,after,split,kept⟩ := unlinkFound found
    rw [i.outstanding] at split
    obtain ⟨left,right,pending,here,there⟩ := List.map_eq_append_iff.mp split
    obtain ⟨c,others,rfl,node,tail⟩ := List.map_eq_cons_iff.mp there
    have same : (left ++ others).map Call.node = rest := by
      rw [kept, ← here, ← tail, List.map_append]
    have reply : c.reply r.result = ⟨call.entry,call.replymsg,call.ctx,r.result,0⟩ := by
      rw [← node]
      rfl
    exact ⟨_,i.completed r.result pending nodes (by rw [outstanding, same]) (by rw [replies, reply])⟩

theorem receiveStep {pb : Protobuf} {p q : Process ρ κ} {msg : Bytes}
    (h : step pb p (.receive msg) = some q) :
    ∃ rsp size, readMessage pb.response msg = .ok (rsp,size) ∧
      q = {p with clnt := handleResponse rsp p.clnt} := by
  simp only [step, processResponse] at h
  cases hr : readMessage pb.response msg with
  | error stop => simp [hr, bind, Except.bind] at h
  | ok read =>
    simp only [hr, bind, Except.bind] at h
    cases Option.some.inj h
    exact ⟨read.1,read.2,rfl,rfl⟩

theorem callsKept {pb : Protobuf} {p q : Process ρ κ} {events : List (Event ρ κ)}
    (h : (system pb).run p events = some q) {c : Call ρ κ} (called : c ∈ p.calls) : c ∈ q.calls := by
  apply (system pb).stateInvariant (J := fun p => c ∈ p.calls) _ called h
  intro s e t there taken
  cases e with
  | call memory method msg replymsg args =>
    obtain ⟨_,_,⟨_,_,calls,_⟩ | ⟨_,_,_,_,calls,_⟩⟩ := stepCall taken
    · rw [calls]
      exact there
    · rw [calls]
      exact List.mem_append_left _ there
  | elsewhere =>
    simp only [system, step] at taken
    split at taken
    · cases Option.some.inj taken
      exact there
    · cases taken
  | receive msg =>
    obtain ⟨_,_,_,rfl⟩ := receiveStep taken
    exact there

theorem issuedStep {pb : Protobuf} {p q : Process ρ κ} {l : Ledger (Call ρ κ)} (i : Issued p l)
    {e : Event ρ κ} (h : step pb p e = some q) : ∃ m, Issued q m := by
  cases e with
  | call memory method msg replymsg args =>
    rcases (issuedCall i h).2 with ⟨_,_,kept⟩ | ⟨_,_,_,_,_,kept⟩
    · exact ⟨_,kept⟩
    · exact ⟨_,kept⟩
  | elsewhere => exact ⟨l,(issuedElsewhere i h).2.2⟩
  | receive msg =>
    obtain ⟨rsp,_,_,rfl⟩ := receiveStep h
    exact issuedReceive i rsp

theorem issuedNew : Issued (Process.new : Process ρ κ) ⟨[],[],[]⟩ :=
  ⟨by simp [Process.new],rfl,⟨_,[],rfl,rfl⟩,by simp [Process.new],List.Pairwise.nil,
    by simp [Process.new],List.Pairwise.nil,rfl,List.Forall₂.nil⟩

theorem issued {pb : Protobuf} {p : Process ρ κ} (h : (system pb).Reachable p) : ∃ l, Issued p l := by
  apply (system pb).reachableInvariant (J := fun p => ∃ l, Issued p l) _ _ h
  · intro s started
    cases started
    exact ⟨_,issuedNew⟩
  · intro s e t kept taken
    obtain ⟨l,i⟩ := kept
    exact issuedStep i taken

def Completes (pb : Protobuf) (msg result : Bytes) (c : Call ρ κ) (clnt : Clnt ρ κ) : Prop :=
  ∃ ret after, processResponse pb msg clnt = .ok (ret,after) ∧
    after.outstanding = clnt.outstanding.filter (fun n => n.entry ≠ c.entry) ∧
    after.replies = clnt.replies ++ [c.reply result]

theorem Issued.isPending {p : Process ρ κ} {l : Ledger (Call ρ κ)} (i : Issued p l) {c : Call ρ κ}
    (called : c ∈ p.calls) (outstanding : c.node ∈ p.clnt.outstanding) : c ∈ l.pending := by
  rw [i.outstanding] at outstanding
  obtain ⟨d,pending,same⟩ := List.mem_map.mp outstanding
  have entry : d.entry = c.entry := congrArg RpcNode.entry same
  rw [← i.sameEntry (i.pendingCalls pending) called entry]
  exact pending

theorem responseDropped {p : Process ρ κ} {l : Ledger (Call ρ κ)} (i : Issued p l)
    (rsp : PbcRpcResponse) (drawn : rsp.id.toNat < 2 ^ 63) (large : 2 ^ 31 ≤ rsp.id.toNat) :
    (handleResponse (some rsp) p.clnt).replies = p.clnt.replies := by
  have none := unlinkLarge l.pending drawn large
  rw [← i.outstanding] at none
  simp [handleResponse, none]

/- In a state that can be reached, the response to an outstanding call completes it exactly
when the id of the call is kept whole by the entry. -/
theorem responseCompletes {pb : Protobuf} {p : Process ρ κ} (h : (system pb).Reachable p)
    {c : Call ρ κ} (called : c ∈ p.calls) (outstanding : c.node ∈ p.clnt.outstanding) {msg : Bytes}
    {rsp : PbcRpcResponse} {size : Nat} (read : readMessage pb.response msg = .ok (some rsp,size))
    (same : rsp.id = c.id) : Completes pb msg rsp.result c p.clnt ↔ c.id.toNat < 2 ^ 31 := by
  obtain ⟨l,i⟩ := issued h
  have pending := i.isPending called outstanding
  have below : c.id.toNat < 2 ^ 63 := Nat.lt_of_le_of_lt (i.drawn c called) i.below
  have process : processResponse pb msg p.clnt = .ok (toInt size,handleResponse (some rsp) p.clnt) := by
    simp only [processResponse, read, bind, Except.bind]
  constructor
  · intro h
    obtain ⟨ret,after,ran,_,replies⟩ := h
    rw [process] at ran
    have handled := (Prod.mk.inj (Except.ok.inj ran)).2
    by_contra large
    rw [← handled, responseDropped i rsp (same ▸ below) (by rw [same]; omega)] at replies
    simp at replies
  · intro small
    obtain ⟨before,after,cut⟩ := List.append_of_mem pending
    have found := unlinkCall (cut ▸ i.pendingOrdered) below small
    rw [← cut, ← i.outstanding, ← same] at found
    have apart : ∀ d ∈ before ++ after, d.entry ≠ c.entry := by
      intro d member entry
      have listed : d ∈ l.pending := by
        rw [cut]
        simp only [List.mem_append, List.mem_cons] at member ⊢
        tauto
      have itself := i.sameEntry (i.pendingCalls listed) called entry
      have once := i.pendingOnce
      rw [cut] at once
      subst itself
      exact (List.nodup_cons.mp (List.nodup_middle.mp once)).1 member
    refine ⟨_,_,process,?_,by simp [handleResponse, found, Call.reply, Call.node]⟩
    have others : (p.clnt.outstanding.filter (fun n => n.entry ≠ c.entry)) =
        (before ++ after).map Call.node := by
      rw [i.outstanding, cut, List.filter_map]
      congr 1
      simp only [List.filter_append, List.filter_cons, Function.comp_apply, nodeEntry, ne_eq,
        not_true_eq_false, decide_false]
      rw [List.filter_eq_self.mpr (fun d member => by
          simp [apart d (List.mem_append_left _ member)]),
        List.filter_eq_self.mpr (fun d member => by
          simp [apart d (List.mem_append_right _ member)])]
      rfl
    rw [others]
    simp [handleResponse, found]

theorem elsewhereRun (pb : Protobuf) (k : Nat) (room : k < 2 ^ 63) :
    (system pb).run Process.new (List.replicate k (Event.elsewhere : Event ρ κ)) =
      some {Process.new with idGen := BitVec.ofNat 64 k} := by
  induction k with
  | zero => rfl
  | succ k ih =>
    have here : ((Process.new : Process ρ κ).idGen + BitVec.ofNat 64 k).toNat = k := by
      simp [Process.new]
      omega
    have drawn : (BitVec.ofNat 64 k).toNat = k := by
      rw [BitVec.toNat_ofNat]
      omega
    rw [List.replicate_succ', System.runAppend, ih (by omega), Option.bind_some, System.runCons]
    simp only [system, step, nextId, drawn, if_pos room, Option.bind_some, System.runNil]
    congr 2
    apply BitVec.eq_of_toNat_eq
    rw [nextIdSucc (by omega), drawn, BitVec.toNat_ofNat]
    omega

end VmpRl.PbrpcCalls
