import VmpRl.Exchanges
import VmpRl.Lanes
import VmpRl.PbrpcAnswers
import VmpRl.PbrpcCalls

/-! A client and a server over one connection, down to the bytes: calls are made at any time, both streams come in in
pieces of any size, and the allocations on either side may fail. What the reply callbacks see is what the same requests
would have got one after the other. -/
namespace VmpRl.Conversation
open Octets CRuntime PbrpcMessages PbrpcXdr PbrpcService PbrpcClient PbrpcCalls Exchanges Lanes WholeWrites
open PbrpcAnswers PbrpcWire Transition

variable {δ : Type} {α : δ → Type} {σ ρ κ : Type}

structure Asked (ρ κ : Type) where
  call : Call ρ κ
  method : CString
  msg : Bytes
  deriving DecidableEq

def Asked.request (a : Asked ρ κ) : PbcRpcRequest := callRequest a.call.id a.method a.msg

abbrev Answer (ρ κ : Type) := Asked ρ κ × PbcRpcResponse

/- Of the output of the client `requested` bytes have come in at the server, and of the server's `replied` bytes at the
client, whose buffers are `input`. -/
structure Talk (ρ κ σ : Type) where
  process : Process ρ κ
  input : Evbuffers
  server : Link (Conn σ)
  requested : Nat
  replied : Nat
  asked : List (Asked ρ κ)

def Talk.up (t : Talk ρ κ σ) : Bytes := writtenBytes t.process.clnt.writes
def Talk.down (t : Talk ρ κ σ) : Bytes := writtenBytes t.server.state.writes

def Talk.sent (t : Talk ρ κ σ) : List (Asked ρ κ) := t.asked.filter (fun a => a.call.sent)

def opened (w : σ) : Talk ρ κ σ := ⟨.new,⟨[],[]⟩,⟨⟨[],[]⟩,⟨w,[],[]⟩⟩,0,0,[]⟩

inductive TalkEvent (ρ κ : Type) where
  | call (memory : CallMemory) (method : CString) (msg : Bytes) (replymsg : ρ) (args : κ)
  | elsewhere
  | toServer (size : Nat) (calloc : Bool)
  | toClient (size : Nat) (calloc : Bool)

section Steps
variable (pb : Protobuf) (P : Platform δ α σ) (head : List (Callout δ α))

def arriveServer (t : Talk ρ κ σ) (size : Nat) (calloc : Bool) : Run (Talk ρ κ σ) := do
  let chunk := (t.up.drop t.requested).take size
  let l ← onData calloc (processRequest pb P head) t.server chunk
  .ok {t with server := l, requested := t.requested + chunk.length}

def arriveClient (t : Talk ρ κ σ) (size : Nat) (calloc : Bool) : Run (Talk ρ κ σ) := do
  let chunk := (t.down.drop t.replied).take size
  let l ← onData calloc (processResponse pb) ⟨t.input,t.process.clnt⟩ chunk
  .ok {t with process := {t.process with clnt := l.state}, input := l.bufs, replied := t.replied + chunk.length}

/- A run ends where an executor stops the process, or where the ids run out. -/
def talkStep (t : Talk ρ κ σ) : TalkEvent ρ κ → Option (Talk ρ κ σ)
  | .call memory method msg replymsg args =>
    (step pb t.process (.call memory method msg replymsg args)).map (fun p => {t with
      process := p
      asked := t.asked ++ (p.calls.drop t.process.calls.length).map (fun c => ⟨c,method,msg⟩)})
  | .elsewhere => (step pb t.process .elsewhere).map (fun p => {t with process := p})
  | .toServer size calloc => (arriveServer pb P head t size calloc).toOption
  | .toClient size calloc => (arriveClient pb t size calloc).toOption

def conversation (w : σ) : System (Talk ρ κ σ) (TalkEvent ρ κ) := ⟨(· = opened w),talkStep pb P head⟩

end Steps

/- An entry keeps 32 bits of the id and finds its response if these are the whole of it. -/
def heard (delivered : List (Answer ρ κ)) : List (Answer ρ κ) :=
  delivered.filter (fun e => e.1.call.id.toNat < 2 ^ 31)

theorem askedId (a : Asked ρ κ) : replyId a.request = a.call.id := if_neg (by simp [Asked.request, callRequest])

structure Hearing (p : Process ρ κ) (l : Ledger (Call ρ κ)) (delivered : List (Answer ρ κ)) : Prop where
  issued : Issued p l
  done : l.done = (heard delivered).map (fun e => e.1.call)
  replies : p.clnt.replies = (heard delivered).map (fun e => e.1.call.reply e.2.result)

theorem handleWrites (rsp : Option PbcRpcResponse) (clnt : Clnt ρ κ) :
    (handleResponse rsp clnt).writes = clnt.writes := by
  unfold handleResponse
  cases rsp with
  | none => rfl
  | some rsp =>
    dsimp only
    split
    · rfl
    · rfl

theorem heardSnoc (delivered : List (Answer ρ κ)) (e : Answer ρ κ) :
    heard (delivered ++ [e]) = heard delivered ++ if e.1.call.id.toNat < 2 ^ 31 then [e] else [] := by
  unfold heard
  rw [List.filter_append]
  congr 1
  by_cases small : e.1.call.id.toNat < 2 ^ 31
  · rw [if_pos small]
    exact List.filter_cons_of_pos (decide_eq_true small)
  · rw [if_neg small]
    exact List.filter_cons_of_neg (by simpa using small)

theorem hearsOne {p : Process ρ κ} {l : Ledger (Call ρ κ)} {delivered : List (Answer ρ κ)}
    (hearing : Hearing p l delivered) {e : Answer ρ κ} (called : e.1.call ∈ p.calls)
    (fresh : e.1.call ∉ delivered.map (fun e => e.1.call)) (numbered : e.2.id = e.1.call.id) :
    ∃ m, Hearing {p with clnt := handleResponse (some e.2) p.clnt} m (delivered ++ [e]) := by
  have issued := hearing.issued
  have drawn : e.1.call.id.toNat < 2 ^ 63 := Nat.lt_of_le_of_lt (issued.drawn _ called) issued.below
  by_cases small : e.1.call.id.toNat < 2 ^ 31
  · have waiting : e.1.call ∉ l.done := by
      intro member
      rw [hearing.done] at member
      obtain ⟨other,inside,same⟩ := List.mem_map.mp member
      exact fresh (List.mem_map.mpr ⟨other,List.mem_of_mem_filter inside,same⟩)
    have pending : e.1.call ∈ l.pending := by
      rw [(Ledger.balanced issued.ledger).pendingRest, ← issued.calls]
      exact List.mem_filter.mpr ⟨called,by simpa using waiting⟩
    obtain ⟨before,after,cut⟩ := List.append_of_mem pending
    have found := unlinkCall (cut ▸ issued.pendingOrdered) drawn small
    rw [← cut, ← issued.outstanding, ← numbered] at found
    have replies : (handleResponse (some e.2) p.clnt).replies = p.clnt.replies ++ [e.1.call.reply e.2.result] := by
      simp [handleResponse, found, Call.reply, Call.node]
    refine ⟨_,issued.completed e.2.result cut (by simp [handleResponse, found]) (by simp [handleResponse, found])
      replies,?_,?_⟩
    · rw [heardSnoc, if_pos small, List.map_append, ← hearing.done]
      rfl
    · rw [heardSnoc, if_pos small, List.map_append, ← hearing.replies]
      exact replies
  · have none := unlinkLarge l.pending drawn (Nat.le_of_not_lt small)
    rw [← issued.outstanding, ← numbered] at none
    have nodes : (handleResponse (some e.2) p.clnt).nodes = p.clnt.nodes := by simp [handleResponse, none]
    have outstanding : (handleResponse (some e.2) p.clnt).outstanding = p.clnt.outstanding := by
      simp [handleResponse, none]
    have replies : (handleResponse (some e.2) p.clnt).replies = p.clnt.replies := by simp [handleResponse, none]
    refine ⟨l,issued.unchanged nodes outstanding replies,?_,?_⟩
    · rw [heardSnoc, if_neg small, List.append_nil]
      exact hearing.done
    · rw [heardSnoc, if_neg small, List.append_nil, ← hearing.replies]
      exact replies

theorem hears {pb : Protobuf} (law : pb.Lawful) (now : List (Answer ρ κ)) {p : Process ρ κ} {l : Ledger (Call ρ κ)}
    {delivered : List (Answer ρ κ)} (hearing : Hearing p l delivered) (called : ∀ e ∈ now, e.1.call ∈ p.calls)
    (numbered : ∀ e ∈ now, e.2.id = e.1.call.id) (apart : ((delivered ++ now).map (fun e => e.1.call)).Nodup) :
    ∃ clnt m, (now.map (responseBody pb)).foldlM (m := Run)
        (fun clnt body => .ok (handleResponse (pb.response.unpack body) clnt)) p.clnt = .ok clnt ∧
      Hearing {p with clnt := clnt} m (delivered ++ now) ∧ clnt.writes = p.clnt.writes := by
  induction now generalizing p l delivered with
  | nil => exact ⟨p.clnt,l,rfl,by simpa using hearing,rfl⟩
  | cons e rest ih =>
    have fresh : e.1.call ∉ delivered.map (fun e => e.1.call) := by
      intro member
      rw [List.map_append, List.map_cons] at apart
      exact (List.nodup_append.mp apart).2.2 _ member _ List.mem_cons_self rfl
    obtain ⟨m,one⟩ := hearsOne hearing (called e List.mem_cons_self) fresh (numbered e List.mem_cons_self)
    obtain ⟨clnt,last,ran,all,writes⟩ := ih one (fun d member => called d (List.mem_cons_of_mem _ member))
      (fun d member => numbered d (List.mem_cons_of_mem _ member)) (by rw [List.append_assoc]; exact apart)
    refine ⟨clnt,last,?_,?_,writes.trans (handleWrites _ _)⟩
    · rw [List.map_cons, List.foldlM_cons]
      simp only [responseBody, law.response.unpackPack, bind, Except.bind]
      exact ran
    · rw [List.append_assoc] at all
      exact all

theorem callWrites {pb : Protobuf} (law : pb.Lawful) {p q : Process ρ κ} {memory : CallMemory} {method : CString}
    {msg : Bytes} {replymsg : ρ} {args : κ} (h : step pb p (.call memory method msg replymsg args) = some q) :
    writtenBytes q.clnt.writes = writtenBytes p.clnt.writes ++
      if (memory.mth && memory.entry && memory.rbuf) = true then
        frame (pb.request.pack (callRequest (p.idGen + 1) method msg)) else [] := by
  simp only [step] at h
  split at h
  · cases Option.some.inj h
    by_cases both : memory.mth = true ∧ memory.entry = true
    · obtain ⟨_,_,writes⟩ := callLinked pb both.1 both.2 p.idGen p.clnt method msg replymsg args
      rw [writes, both.1, both.2, Bool.and_self, Bool.true_and]
      cases memory.rbuf with
      | false => simp
      | true =>
        simp only [if_true]
        rw [writtenSnoc, requestWritten law.request]
        rfl
    · have lacks : memory.mth = false ∨ memory.entry = false := by
        cases named : memory.mth with
        | false => exact Or.inl rfl
        | true =>
          cases linked : memory.entry with
          | false => exact Or.inr rfl
          | true => exact absurd ⟨named,linked⟩ both
      have unmade : (memory.mth && memory.entry && memory.rbuf) = false := by
        rcases lacks with none | none
        · rw [none]
          rfl
        · rw [none, Bool.and_false]
          rfl
      rw [(callRefused pb lacks p.idGen p.clnt method msg replymsg args).2, unmade]
      exact (List.append_nil _).symm
  · cases h

structure Along (pb : Protobuf) (P : Platform δ α σ) (head : List (Callout δ α)) (w : σ) (t : Talk ρ κ σ)
    (served : List (Asked ρ κ)) (answers delivered : List (Answer ρ κ)) : Prop where
  hearing : ∃ l, Hearing t.process l delivered
  calls : t.process.calls = t.asked.map Asked.call
  up : t.up = frames (t.sent.map (requestBody pb Asked.request))
  requested : ∃ kept todo, Lane (requestBody pb Asked.request) t.sent t.requested t.server.bufs served kept todo
  ran : exchanges P head Asked.request served w = .ok (answers,t.server.state.world)
  down : t.down = frames (answers.map (responseBody pb))
  replied : ∃ kept todo, Lane (responseBody pb) answers t.replied t.input delivered kept todo
  small : ∀ e ∈ answers, Small (responseBody pb e)
  numbered : ∀ e ∈ answers, e.2.id = e.1.call.id
  order : (answers.map Prod.fst).Sublist served

section Run
variable {pb : Protobuf} (law : pb.Lawful) {P : Platform δ α σ} {head : List (Callout δ α)} {w : σ}
  {t u : Talk ρ κ σ} {served : List (Asked ρ κ)} {answers delivered : List (Answer ρ κ)}

theorem alongFresh : Along pb P head w (opened w : Talk ρ κ σ) [] [] [] :=
  ⟨⟨_,issuedNew,rfl,rfl⟩,rfl,rfl,⟨[],[],laneFresh _⟩,rfl,rfl,⟨[],[],laneFresh _⟩,by simp,by simp,List.Sublist.refl _⟩

theorem Along.passed (along : Along pb P head w t served answers delivered) {p : Process ρ κ} {l : Ledger (Call ρ κ)}
    (hearing : Hearing p l delivered) (calls : p.calls = t.process.calls)
    (writes : writtenBytes p.clnt.writes = writtenBytes t.process.clnt.writes) :
    Along pb P head w {t with process := p} served answers delivered :=
  {along with hearing := ⟨l,hearing⟩, calls := calls.trans along.calls, up := writes.trans along.up}

theorem Along.entered (along : Along pb P head w t served answers delivered) {p : Process ρ κ} {l : Ledger (Call ρ κ)}
    (hearing : Hearing p l delivered) {a : Asked ρ κ} (calls : p.calls = t.process.calls ++ [a.call])
    (writes : writtenBytes p.clnt.writes = writtenBytes t.process.clnt.writes ++
      if a.call.sent = true then frame (requestBody pb Asked.request a) else []) :
    Along pb P head w {t with process := p, asked := t.asked ++ [a]} served answers delivered := by
  have sent : (t.asked ++ [a]).filter (fun a => a.call.sent) =
      t.sent ++ if a.call.sent = true then [a] else [] := by
    rw [List.filter_append]
    congr 1
    cases went : a.call.sent with
    | false => simp [went]
    | true => simp [went]
  have up : writtenBytes p.clnt.writes =
      frames (((t.asked ++ [a]).filter (fun a => a.call.sent)).map (requestBody pb Asked.request)) := by
    rw [sent, writes, show writtenBytes t.process.clnt.writes = frames (t.sent.map (requestBody pb Asked.request)) from along.up,
      List.map_append]
    cases a.call.sent with
    | false => simp
    | true => simp [frames, Framing.framesAppend, frame]
  obtain ⟨kept,todo,lane⟩ := along.requested
  refine {along with hearing := ⟨l,hearing⟩, calls := ?_, up := up, requested := ?_}
  · rw [calls, along.calls, List.map_append]
    rfl
  · refine ⟨kept,todo ++ if a.call.sent = true then [a] else [],?_⟩
    show Lane (requestBody pb Asked.request) ((t.asked ++ [a]).filter (fun a => a.call.sent)) _ _ _ _ _
    rw [sent]
    exact laneGrows lane _

include law in
theorem alongCall (along : Along pb P head w t served answers delivered) {memory : CallMemory} {method : CString}
    {msg : Bytes} {replymsg : ρ} {args : κ}
    (h : talkStep pb P head t (.call memory method msg replymsg args) = some u) :
    Along pb P head w u served answers delivered := by
  obtain ⟨p,taken,rfl⟩ := Option.map_eq_some_iff.mp h
  obtain ⟨l,hearing⟩ := along.hearing
  have writes := callWrites law taken
  obtain ⟨replies,⟨unmade,calls,issued⟩ | ⟨c,call,made,_,calls,issued⟩⟩ := issuedCall hearing.issued taken
  · rw [unmade, Bool.false_and, if_neg (by decide), List.append_nil] at writes
    have kept := along.passed ⟨issued,hearing.done,replies.trans hearing.replies⟩ calls writes
    rw [calls, List.drop_length, List.map_nil, List.append_nil]
    exact kept
  · have entered : p.calls.drop t.process.calls.length = [c] := by rw [calls, List.drop_left]
    rw [made, Bool.true_and] at writes
    have kept := along.entered (a := ⟨c,method,msg⟩) ⟨issued,hearing.done,replies.trans hearing.replies⟩ calls (by
      rw [writes, call]
      rfl)
    rw [entered]
    exact kept

theorem alongElsewhere (along : Along pb P head w t served answers delivered)
    (h : talkStep pb P head t .elsewhere = some u) : Along pb P head w u served answers delivered := by
  obtain ⟨p,taken,rfl⟩ := Option.map_eq_some_iff.mp h
  obtain ⟨l,hearing⟩ := along.hearing
  obtain ⟨clnt,calls,issued⟩ := issuedElsewhere hearing.issued taken
  exact along.passed ⟨issued,hearing.done,by rw [clnt]; exact hearing.replies⟩ calls (by rw [clnt])

def AllAnswerable (pb : Protobuf) (P : Platform δ α σ) (head : List (Callout δ α)) (t : Talk ρ κ σ) : Prop :=
  ∀ a ∈ t.sent, Answerable pb P head a.request

include law in
theorem alongServer (answerable : AllAnswerable pb P head t) (along : Along pb P head w t served answers delivered) (size : Nat)
    (calloc : Bool) : ∃ u now more, arriveServer pb P head t size calloc = .ok u ∧
      Along pb P head w u (served ++ now) (answers ++ more) delivered := by
  obtain ⟨kept,todo,lane⟩ := along.requested
  obtain ⟨next,now,later,left,arrived,onward,_⟩ := laneArrives (processTakesFrame pb P head)
    (requestsSmall law _ answerable) lane size calloc t.server.state
  have inside : ∀ a ∈ now, a ∈ t.sent := by
    intro a member
    rw [onward.order]
    simp [member]
  obtain ⟨more,out,ran,folded,_,written,small,numbered,order⟩ :=
    serveExchanges law (fun a member => answerable a (inside a member)) t.server.state
  rw [folded] at arrived
  rw [← along.up] at arrived onward
  have served := exchangesAppend along.ran ran
  obtain ⟨waiting,behind,answered⟩ := along.replied
  refine ⟨{t with
      server := ⟨next,out⟩
      requested := t.requested + ((t.up.drop t.requested).take size).length},now,more,?_,?_⟩
  · simp only [arriveServer, arrived, bind, Except.bind]
    rfl
  · refine ⟨along.hearing,along.calls,along.up,⟨later,left,onward⟩,served,?_,⟨waiting,_,laneGrows answered more⟩,?_,?_,?_⟩
    · show writtenBytes out.writes = _
      rw [written, show writtenBytes t.server.state.writes = frames (answers.map (responseBody pb)) from along.down,
        List.map_append]
      exact (Framing.framesAppend lengthPrefix _ _).symm
    · intro e member
      rcases List.mem_append.mp member with old | new
      · exact along.small e old
      · exact small e new
    · intro e member
      rcases List.mem_append.mp member with old | new
      · exact along.numbered e old
      · exact (numbered e new).trans (askedId e.1)
    · rw [List.map_append]
      exact along.order.append order

theorem Along.answered (along : Along pb P head w t served answers delivered) :
    (answers.map (fun e => e.1.call)).Sublist t.process.calls := by
  obtain ⟨kept,todo,lane⟩ := along.requested
  have served : served.Sublist t.asked := by
    have first : served.Sublist t.sent := by
      rw [lane.order, List.append_assoc]
      exact List.sublist_append_left _ _
    exact first.trans List.filter_sublist
  have both := (along.order.trans served).map Asked.call
  rw [List.map_map, ← along.calls] at both
  exact both

include law in
theorem alongClient (along : Along pb P head w t served answers delivered) (size : Nat) (calloc : Bool) :
    ∃ u now, arriveClient pb t size calloc = .ok u ∧
      Along pb P head w u served answers (delivered ++ now) := by
  obtain ⟨kept,todo,lane⟩ := along.replied
  obtain ⟨next,now,later,left,arrived,onward,_⟩ := laneArrives (responseTakesFrame pb) along.small lane size calloc
    t.process.clnt
  obtain ⟨l,hearing⟩ := along.hearing
  have inside : (delivered ++ now).Sublist answers := by
    rw [onward.order, List.append_assoc]
    exact List.sublist_append_left _ _
  have made := (inside.map (fun e => e.1.call)).trans along.answered
  have once : t.process.calls.Nodup :=
    hearing.issued.entries.imp (fun less same => Nat.ne_of_lt less (congrArg Call.entry same))
  obtain ⟨clnt,m,ran,all,writes⟩ := hears law now hearing
    (fun e member => made.subset (List.mem_map.mpr ⟨e,List.mem_append_right _ member,rfl⟩))
    (fun e member => along.numbered e (inside.subset (List.mem_append_right _ member))) (once.sublist made)
  rw [ran] at arrived
  rw [← along.down] at arrived onward
  refine ⟨{t with
      process := {t.process with clnt := clnt}
      input := next
      replied := t.replied + ((t.down.drop t.replied).take size).length},now,?_,?_⟩
  · simp only [arriveClient, arrived, bind, Except.bind]
    rfl
  · refine {along with hearing := ⟨m,all⟩, up := ?_, replied := ⟨later,left,onward⟩}
    show writtenBytes clnt.writes = _
    rw [writes]
    exact along.up

theorem askedGrows {e : TalkEvent ρ κ} (h : talkStep pb P head t e = some u) : t.asked <+: u.asked := by
  cases e with
  | call memory method msg replymsg args =>
    obtain ⟨p,_,rfl⟩ := Option.map_eq_some_iff.mp h
    exact List.prefix_append _ _
  | elsewhere =>
    obtain ⟨p,_,rfl⟩ := Option.map_eq_some_iff.mp h
    exact List.prefix_refl _
  | toServer size calloc =>
    cases arrived : onData calloc (processRequest pb P head) t.server ((t.up.drop t.requested).take size) with
    | error stop =>
      simp only [talkStep, arriveServer, arrived, bind, Except.bind] at h
      cases h
    | ok l =>
      simp only [talkStep, arriveServer, arrived, bind, Except.bind] at h
      cases h
      exact List.prefix_refl _
  | toClient size calloc =>
    cases arrived : onData calloc (processResponse pb) ⟨t.input,t.process.clnt⟩ ((t.down.drop t.replied).take size) with
    | error stop =>
      simp only [talkStep, arriveClient, arrived, bind, Except.bind] at h
      cases h
    | ok l =>
      simp only [talkStep, arriveClient, arrived, bind, Except.bind] at h
      cases h
      exact List.prefix_refl _

include law in
theorem alongStep (answerable : AllAnswerable pb P head t) (along : Along pb P head w t served answers delivered)
    {e : TalkEvent ρ κ} (h : talkStep pb P head t e = some u) :
    ∃ served answers delivered, Along pb P head w u served answers delivered := by
  cases e with
  | call memory method msg replymsg args => exact ⟨_,_,_,alongCall law along h⟩
  | elsewhere => exact ⟨_,_,_,alongElsewhere along h⟩
  | toServer size calloc =>
    obtain ⟨next,now,more,arrived,kept⟩ := alongServer law answerable along size calloc
    simp only [talkStep, arrived] at h
    cases h
    exact ⟨_,_,_,kept⟩
  | toClient size calloc =>
    obtain ⟨next,now,arrived,kept⟩ := alongClient law along size calloc
    simp only [talkStep, arrived] at h
    cases h
    exact ⟨_,_,_,kept⟩

include law in
theorem alongReached (reached : (conversation pb P head w).Reachable t) (answerable : AllAnswerable pb P head t) :
    ∃ served answers delivered, Along pb P head w t served answers delivered := by
  refine (conversation pb P head w).reachableInvariant
    (J := fun t => AllAnswerable pb P head t → ∃ served answers delivered, Along pb P head w t served answers delivered)
    ?_ ?_ reached answerable
  · intro s started _
    cases started
    exact ⟨[],[],[],alongFresh⟩
  · intro s e u kept taken fits
    have before : AllAnswerable pb P head s := by
      intro a member
      have grown : s.sent <+: u.sent := (askedGrows taken).filter _
      exact fits a (grown.subset member)
    obtain ⟨served,answers,delivered,along⟩ := kept before
    exact alongStep law before along taken

structure Quiet (t : Talk ρ κ σ) : Prop where
  up : t.requested = t.up.length
  read : t.server.bufs.dst = []
  down : t.replied = t.down.length
  heard : t.input.dst = []

theorem Along.outstanding (along : Along pb P head w t served answers delivered) :
    t.process.clnt.outstanding = (t.process.calls.filter
      (fun c => c.entry ∉ (heard delivered).map (fun e => e.1.call.entry))).map Call.node := by
  obtain ⟨l,hearing⟩ := along.hearing
  obtain ⟨kept,todo,lane⟩ := along.replied
  have issued := hearing.issued
  have made : ∀ e ∈ heard delivered, e.1.call ∈ t.process.calls := by
    intro e member
    refine along.answered.subset (List.mem_map.mpr ⟨e,?_,rfl⟩)
    rw [lane.order, List.append_assoc]
    exact List.mem_append_left _ (List.mem_of_mem_filter member)
  rw [issued.outstanding, (Ledger.balanced issued.ledger).pendingRest, ← issued.calls, hearing.done]
  congr 1
  apply List.filter_congr
  intro c called
  have same : c ∈ (heard delivered).map (fun e => e.1.call) ↔
      c.entry ∈ (heard delivered).map (fun e => e.1.call.entry) := by
    constructor
    · intro member
      obtain ⟨e,inside,equal⟩ := List.mem_map.mp member
      exact List.mem_map.mpr ⟨e,inside,by rw [equal]⟩
    · intro member
      obtain ⟨e,inside,equal⟩ := List.mem_map.mp member
      exact List.mem_map.mpr ⟨e,inside,issued.sameEntry (made e inside) called equal⟩
  simp only [same]

include law in
theorem Along.whole (along : Along pb P head w t served answers delivered) (answerable : AllAnswerable pb P head t)
    (quiet : Quiet t) : t.sent = served ∧ answers = delivered := by
  obtain ⟨_,_,requested⟩ := along.requested
  obtain ⟨_,_,replied⟩ := along.replied
  refine ⟨(laneWhole (requestsSmall law _ answerable) requested ?_ quiet.read).1,
    (laneWhole along.small replied ?_ quiet.heard).1⟩
  · rw [quiet.up, along.up]
  · rw [quiet.down, along.down]

include law in
/- However the calls and the two streams interleave and whichever allocations fail, the reply callbacks run in the order
of the calls, each once, with what its request would have got without a connection; no arrival stops either side; and
when all is quiet every request was served and every response heard. -/
theorem callsAnsweredInTurn (reached : (conversation pb P head w).Reachable t) (answerable : AllAnswerable pb P head t) :
    (∃ served answers delivered, served <+: t.sent ∧
      exchanges P head Asked.request served w = .ok (answers,t.server.state.world) ∧ delivered <+: answers ∧
      t.process.clnt.replies = (heard delivered).map (fun e => e.1.call.reply e.2.result) ∧
      t.process.clnt.outstanding = (t.process.calls.filter
        (fun c => c.entry ∉ (heard delivered).map (fun e => e.1.call.entry))).map Call.node ∧
      (Quiet t → served = t.sent ∧ delivered = answers)) ∧
    ∀ size calloc, (∃ u, talkStep pb P head t (.toServer size calloc) = some u) ∧
      ∃ u, talkStep pb P head t (.toClient size calloc) = some u := by
  obtain ⟨served,answers,delivered,along⟩ := alongReached law reached answerable
  obtain ⟨_,_,requested⟩ := along.requested
  obtain ⟨_,_,replied⟩ := along.replied
  obtain ⟨l,hearing⟩ := along.hearing
  refine ⟨⟨served,answers,delivered,?_,along.ran,?_,hearing.replies,along.outstanding,?_⟩,?_⟩
  · rw [requested.order, List.append_assoc]
    exact List.prefix_append _ _
  · rw [replied.order, List.append_assoc]
    exact List.prefix_append _ _
  · intro quiet
    obtain ⟨sent,heard⟩ := along.whole law answerable quiet
    exact ⟨sent.symm,heard.symm⟩
  · intro size calloc
    obtain ⟨u,_,_,serving,_⟩ := alongServer law answerable along size calloc
    obtain ⟨v,_,hearing,_⟩ := alongClient law along size calloc
    refine ⟨⟨u,?_⟩,⟨v,?_⟩⟩
    · simp only [talkStep, serving]
      rfl
    · simp only [talkStep, hearing]
      rfl

end Run

def chat : List (TalkEvent Unit Nat) :=
  [.call ⟨true,true,true⟩ (cstr "ping") [8,1] () 5,.toServer 3 true,.call ⟨true,true,true⟩ (cstr "ping") [8,2] () 6,
    .toServer 40 true,.toClient 20 false,.toClient 90 true]

def chatAsked : List (Asked Unit Nat) :=
  [⟨⟨0,1,(),5,true⟩,cstr "ping",[8,1]⟩,⟨⟨1,2,(),6,true⟩,cstr "ping",[8,2]⟩]

theorem chatAnswerable : ∀ a ∈ chatAsked, Answerable wire echo echoHead a.request := by
  intro a member
  have one : a = ⟨⟨0,1,(),5,true⟩,cstr "ping",[8,1]⟩ ∨ a = ⟨⟨1,2,(),6,true⟩,cstr "ping",[8,2]⟩ := by
    simpa [chatAsked] using member
  rcases one with rfl | rfl
  all_goals
    refine ⟨fun w => ⟨_,rfl⟩,by decide +kernel,?_⟩
    intro w r invoked
    cases Except.ok.inj invoked
    cases w
    decide +kernel

theorem chatAnswered : ∃ t, (conversation wire echo echoHead ()).run (opened ()) chat = some t ∧
    t.process.clnt.replies.map (fun r => (r.ctx,r.result)) = [(5,[8,1]),(6,[8,2])] ∧
    t.process.clnt.outstanding = [] := by
  have ends : ((conversation wire echo echoHead ()).run (opened ()) chat).isSome = true := by decide +kernel
  obtain ⟨t,ran⟩ := Option.isSome_iff_exists.mp ends
  have seen : ((conversation wire echo echoHead ()).run (opened ()) chat).map (fun t => (t.sent,t.process.calls)) =
      some (chatAsked,chatAsked.map Asked.call) := by decide +kernel
  have still : ((conversation wire echo echoHead ()).run (opened ()) chat).map (fun t =>
      (t.requested == t.up.length,t.replied == t.down.length,t.server.bufs.dst,t.input.dst)) =
      some (true,true,[],[]) := by decide +kernel
  rw [ran] at seen still
  simp only [Option.map_some, Option.some.injEq, Prod.mk.injEq, beq_iff_eq] at seen still
  obtain ⟨sent,calls⟩ := seen
  obtain ⟨up,down,read,heard⟩ := still
  have reached : (conversation wire echo echoHead ()).Reachable t := ⟨opened (),chat,rfl,ran⟩
  obtain ⟨⟨served,answers,delivered,_,exchanged,_,replies,outstanding,whole⟩,_⟩ :=
    callsAnsweredInTurn wireLawful reached (by intro a member; exact chatAnswerable a (sent ▸ member))
  obtain ⟨rfl,rfl⟩ := whole ⟨up,read,down,heard⟩
  rw [sent] at exchanged
  cases Except.ok.inj exchanged
  refine ⟨t,ran,?_,?_⟩
  · rw [replies]
    decide +kernel
  · rw [outstanding, calls]
    decide +kernel

end VmpRl.Conversation
