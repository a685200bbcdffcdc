import Mathlib.Data.List.Perm.Basic
import VmpRl.PbrpcCalls
import VmpRl.PbrpcWire

/-! A client process and a server that answers a request at most once, with the request's
Id. Responses stay in flight until they are delivered, in any order. -/
namespace VmpRl.PbrpcSession
open Octets CRuntime PbrpcMessages PbrpcXdr PbrpcClient PbrpcCalls PbrpcWire Transition

structure Net (ρ κ : Type) where
  process : Process ρ κ
  waiting : List (BitVec 64)
  flight : List PbcRpcResponse
  answered : List PbcRpcResponse

variable {ρ κ : Type}

inductive NetEvent (ρ κ : Type) where
  | call (memory : CallMemory) (method : CString) (msg : Bytes) (replymsg : ρ) (args : κ)
  | elsewhere
  | answer (rsp : PbcRpcResponse)
  | deliver (msg : Bytes)

def Net.sent (n : Net ρ κ) (p : Process ρ κ) (ids : List (BitVec 64)) : Net ρ κ :=
  {n with process := p, waiting := n.waiting ++ ids}

def Net.answer (n : Net ρ κ) (rsp : PbcRpcResponse) : Net ρ κ := {n with
  waiting := n.waiting.erase rsp.id
  flight := n.flight ++ [rsp]
  answered := n.answered ++ [rsp]}

def Net.taken (n : Net ρ κ) (p : Process ρ κ) (rsp : PbcRpcResponse) : Net ρ κ :=
  {n with process := p, flight := n.flight.erase rsp}

def netStep (pb : Protobuf) (n : Net ρ κ) : NetEvent ρ κ → Option (Net ρ κ)
  | .call memory method msg replymsg args => do
    let p ← step pb n.process (.call memory method msg replymsg args)
    some (n.sent p
      (if memory.mth && memory.entry && memory.rbuf then [(nextId n.process.idGen).1] else []))
  | .elsewhere => (step pb n.process .elsewhere).map (fun p => n.sent p [])
  | .answer rsp => if rsp.id ∈ n.waiting then some (n.answer rsp) else none
  | .deliver msg => match readMessage pb.response msg with
    | .ok (some rsp, _) =>
      if rsp ∈ n.flight then (step pb n.process (.receive msg)).map (fun p => n.taken p rsp) else none
    | _ => none

def network (pb : Protobuf) : System (Net ρ κ) (NetEvent ρ κ) := ⟨(· = ⟨.new,[],[],[]⟩),netStep pb⟩

def Net.owed (n : Net ρ κ) : List (BitVec 64) := n.waiting ++ n.flight.map PbcRpcResponse.id
def Net.asked (n : Net ρ κ) : List (BitVec 64) := n.answered.map PbcRpcResponse.id ++ n.waiting

structure Honest (n : Net ρ κ) (l : Ledger (Call ρ κ)) : Prop where
  issued : Issued n.process l
  owedOnce : n.owed.Nodup
  owedPending : ∀ id ∈ n.owed, ∃ c ∈ l.pending, c.id = id
  askedOnce : n.asked.Nodup
  askedCalls : ∀ id ∈ n.asked, ∃ c ∈ n.process.calls, c.id = id
  delivered : ∀ rsp ∈ n.flight, rsp ∈ n.answered
  replies : List.Forall₂ (fun reply c => ∃ rsp ∈ n.answered, rsp.id = c.id ∧
    reply = Call.reply c rsp.result) n.process.clnt.replies l.done
  small : ∀ c ∈ l.done, c.id.toNat < 2 ^ 31
  awaited : ∀ c ∈ l.pending, c.sent = true → c.id.toNat < 2 ^ 31 → c.id ∈ n.owed

theorem owedSent (n : Net ρ κ) (p : Process ρ κ) (id : BitVec 64) :
    (n.sent p [id]).owed.Perm (id :: n.owed) := by
  simp only [Net.owed, Net.sent, List.append_assoc, List.singleton_append]
  exact List.perm_middle

theorem askedSent (n : Net ρ κ) (p : Process ρ κ) (id : BitVec 64) :
    (n.sent p [id]).asked.Perm (id :: n.asked) := by
  simp only [Net.asked, Net.sent, ← List.append_assoc]
  exact List.perm_append_singleton id _

theorem owedAnswered {n : Net ρ κ} {rsp : PbcRpcResponse} (waiting : rsp.id ∈ n.waiting) :
    (n.answer rsp).owed.Perm n.owed := by
  simp only [Net.owed, Net.answer, List.map_append, List.map_cons, List.map_nil, ← List.append_assoc]
  have out := List.perm_append_singleton rsp.id (n.waiting.erase rsp.id ++ n.flight.map PbcRpcResponse.id)
  have back := (List.perm_cons_erase waiting).symm.append_right (n.flight.map PbcRpcResponse.id)
  exact out.trans back

theorem askedAnswered {n : Net ρ κ} {rsp : PbcRpcResponse} (waiting : rsp.id ∈ n.waiting) :
    (n.answer rsp).asked.Perm n.asked := by
  simp only [Net.asked, Net.answer, List.map_append, List.map_cons, List.map_nil, List.append_assoc,
    List.singleton_append]
  exact (List.perm_cons_erase waiting).symm.append_left _

theorem owedTaken {n : Net ρ κ} {rsp : PbcRpcResponse} (flying : rsp ∈ n.flight) (p : Process ρ κ) :
    n.owed.Perm (rsp.id :: (n.taken p rsp).owed) := by
  have out := (List.perm_cons_erase flying).map PbcRpcResponse.id
  exact (out.append_left n.waiting).trans List.perm_middle

theorem Honest.quiet {n : Net ρ κ} {l : Ledger (Call ρ κ)} (v : Honest n l) {p : Process ρ κ}
    (issued : Issued p l) (calls : p.calls = n.process.calls)
    (replies : p.clnt.replies = n.process.clnt.replies) : Honest (n.sent p []) l := by
  have waiting : (n.sent p []).waiting = n.waiting := List.append_nil _
  have owed : (n.sent p []).owed = n.owed := congrArg (· ++ _) waiting
  have asked : (n.sent p []).asked = n.asked := congrArg (_ ++ ·) waiting
  refine ⟨issued,?_,?_,?_,?_,v.delivered,?_,v.small,?_⟩
  · rw [owed]
    exact v.owedOnce
  · rw [owed]
    exact v.owedPending
  · rw [asked]
    exact v.askedOnce
  · rw [asked]
    intro id member
    obtain ⟨c,present,same⟩ := v.askedCalls id member
    exact ⟨c,calls ▸ present,same⟩
  · have kept := v.replies
    rw [← replies] at kept
    exact kept
  · rw [owed]
    exact v.awaited

theorem Honest.askedGrown {n : Net ρ κ} {l : Ledger (Call ρ κ)} (v : Honest n l) {calls : List (Call ρ κ)}
    {c : Call ρ κ} (grown : calls = n.process.calls ++ [c]) : ∀ i ∈ n.asked, ∃ d ∈ calls, d.id = i := by
  intro i member
  obtain ⟨d,present,same⟩ := v.askedCalls i member
  exact ⟨d,by rw [grown]; exact List.mem_append_left _ present,same⟩

theorem Honest.owedGrown {n : Net ρ κ} {l : Ledger (Call ρ κ)} (v : Honest n l) (c : Call ρ κ) :
    ∀ i ∈ n.owed, ∃ d ∈ l.pending ++ [c], d.id = i := by
  intro i member
  obtain ⟨d,present,same⟩ := v.owedPending i member
  exact ⟨d,List.mem_append_left _ present,same⟩

theorem Honest.unsent {n : Net ρ κ} {l : Ledger (Call ρ κ)} (v : Honest n l) {p : Process ρ κ}
    {c : Call ρ κ} (issued : Issued p {l with issued := l.issued ++ [c], pending := l.pending ++ [c]})
    (calls : p.calls = n.process.calls ++ [c]) (replies : p.clnt.replies = n.process.clnt.replies)
    (silent : c.sent = false) :
    Honest (n.sent p []) {l with issued := l.issued ++ [c], pending := l.pending ++ [c]} := by
  have waiting : (n.sent p []).waiting = n.waiting := List.append_nil _
  have owed : (n.sent p []).owed = n.owed := congrArg (· ++ _) waiting
  have asked : (n.sent p []).asked = n.asked := congrArg (_ ++ ·) waiting
  have answers := v.replies
  rw [← replies] at answers
  refine ⟨issued,by rw [owed]; exact v.owedOnce,by rw [owed]; exact v.owedGrown c,
    by rw [asked]; exact v.askedOnce,by rw [asked]; exact v.askedGrown calls,v.delivered,answers,v.small,?_⟩
  intro d pending sent small
  rw [owed]
  rcases List.mem_append.mp pending with old | new
  · exact v.awaited d old sent small
  · obtain rfl := List.mem_singleton.mp new
    rw [silent] at sent
    contradiction

theorem Honest.requested {n : Net ρ κ} {l : Ledger (Call ρ κ)} (v : Honest n l) {p : Process ρ κ}
    {c : Call ρ κ} (issued : Issued p {l with issued := l.issued ++ [c], pending := l.pending ++ [c]})
    (calls : p.calls = n.process.calls ++ [c]) (replies : p.clnt.replies = n.process.clnt.replies)
    (fresh : ∀ d ∈ n.process.calls, d.id ≠ c.id) :
    Honest (n.sent p [c.id]) {l with issued := l.issued ++ [c], pending := l.pending ++ [c]} := by
  have freshAsked : c.id ∉ n.asked := by
    intro member
    obtain ⟨d,present,same⟩ := v.askedCalls _ member
    exact fresh d present same
  have freshOwed : c.id ∉ n.owed := by
    intro member
    obtain ⟨d,present,same⟩ := v.owedPending _ member
    exact fresh d (v.issued.pendingCalls present) same
  have owed := owedSent n p c.id
  have asked := askedSent n p c.id
  have answers := v.replies
  rw [← replies] at answers
  refine ⟨issued,owed.nodup_iff.mpr (List.nodup_cons.mpr ⟨freshOwed,v.owedOnce⟩),?_,
    asked.nodup_iff.mpr (List.nodup_cons.mpr ⟨freshAsked,v.askedOnce⟩),?_,v.delivered,answers,v.small,?_⟩
  · intro i member
    rcases List.mem_cons.mp (owed.mem_iff.mp member) with rfl | old
    · exact ⟨c,by simp,rfl⟩
    · exact v.owedGrown c i old
  · intro i member
    rcases List.mem_cons.mp (asked.mem_iff.mp member) with rfl | old
    · exact ⟨c,by simp [Net.sent, calls],rfl⟩
    · exact v.askedGrown calls i old
  · intro d pending sent small
    apply owed.mem_iff.mpr
    rcases List.mem_append.mp pending with old | new
    · exact List.mem_cons_of_mem _ (v.awaited d old sent small)
    · obtain rfl := List.mem_singleton.mp new
      exact List.mem_cons_self

theorem honestCall {n : Net ρ κ} {l : Ledger (Call ρ κ)} (v : Honest n l) {pb : Protobuf}
    {p : Process ρ κ} {memory : CallMemory} {method : CString} {msg : Bytes} {replymsg : ρ} {args : κ}
    (h : step pb n.process (.call memory method msg replymsg args) = some p) :
    ∃ m, Honest (n.sent p (if memory.mth && memory.entry && memory.rbuf then
      [(nextId n.process.idGen).1] else [])) m := by
  obtain ⟨replies,⟨unmade,calls,issued⟩ | ⟨c,call,made,id,calls,issued⟩⟩ := issuedCall v.issued h
  · simp only [unmade, Bool.false_and, Bool.false_eq_true, if_false]
    exact ⟨l,v.quiet issued calls replies⟩
  · have fresh : ∀ d ∈ n.process.calls, d.id ≠ c.id := by
      intro d member same
      have old := v.issued.drawn d member
      rw [same] at old
      omega
    have drawn : (nextId n.process.idGen).1 = c.id := by
      rw [call]
      rfl
    have sent : c.sent = memory.rbuf := by rw [call]
    simp only [made, Bool.true_and, drawn]
    cases hr : memory.rbuf with
    | false =>
      simp only [Bool.false_eq_true, if_false]
      exact ⟨_,v.unsent issued calls replies (sent.trans hr)⟩
    | true =>
      simp only [if_true]
      exact ⟨_,v.requested issued calls replies fresh⟩

theorem honestAnswer {n : Net ρ κ} {l : Ledger (Call ρ κ)} (v : Honest n l) {rsp : PbcRpcResponse}
    (waiting : rsp.id ∈ n.waiting) : Honest (n.answer rsp) l := by
  have owed := owedAnswered waiting
  have asked := askedAnswered waiting
  refine ⟨v.issued,owed.nodup_iff.mpr v.owedOnce,fun i member => v.owedPending i (owed.mem_iff.mp member),
    asked.nodup_iff.mpr v.askedOnce,fun i member => v.askedCalls i (asked.mem_iff.mp member),?_,?_,v.small,
    fun c pending sent small => owed.mem_iff.mpr (v.awaited c pending sent small)⟩
  · intro r member
    rcases List.mem_append.mp member with old | new
    · exact List.mem_append_left _ (v.delivered r old)
    · exact List.mem_append_right _ new
  · exact v.replies.imp (fun reply c ⟨r,member,same⟩ => ⟨r,List.mem_append_left _ member,same⟩)

theorem Honest.addressee {n : Net ρ κ} {l : Ledger (Call ρ κ)} (v : Honest n l) {rsp : PbcRpcResponse}
    (flying : rsp ∈ n.flight) : ∃ c ∈ l.pending, c.id = rsp.id ∧ c.id.toNat < 2 ^ 63 := by
  have here : rsp.id ∈ n.owed := List.mem_append_right _ (List.mem_map_of_mem flying)
  obtain ⟨c,pending,same⟩ := v.owedPending rsp.id here
  have drawn := v.issued.drawn c (v.issued.pendingCalls pending)
  exact ⟨c,pending,same,Nat.lt_of_le_of_lt drawn v.issued.below⟩

theorem Honest.completed {n : Net ρ κ} {l : Ledger (Call ρ κ)} (v : Honest n l) {rsp : PbcRpcResponse}
    (flying : rsp ∈ n.flight) {c : Call ρ κ} {before after : List (Call ρ κ)}
    (cut : l.pending = before ++ c :: after) (same : c.id = rsp.id) (small : c.id.toNat < 2 ^ 31) :
    Honest (n.taken {n.process with clnt := handleResponse (some rsp) n.process.clnt} rsp)
      {l with pending := before ++ after, done := l.done ++ [c]} := by
  have owed := owedTaken flying {n.process with clnt := handleResponse (some rsp) n.process.clnt}
  obtain ⟨gone,once⟩ := List.nodup_cons.mp (owed.nodup_iff.mp v.owedOnce)
  have found := unlinkCall (cut ▸ v.issued.pendingOrdered) (Nat.lt_trans small (by decide)) small
  rw [← cut, ← v.issued.outstanding, same] at found
  have issued : Issued {n.process with clnt := handleResponse (some rsp) n.process.clnt}
      {l with pending := before ++ after, done := l.done ++ [c]} :=
    v.issued.completed rsp.result cut (by simp [handleResponse, found])
      (by simp [handleResponse, found]) (by simp [handleResponse, found, Call.reply, Call.node])
  refine ⟨issued,once,?_,v.askedOnce,v.askedCalls,
    fun r member => v.delivered r (List.mem_of_mem_erase member),?_,?_,?_⟩
  · intro i member
    obtain ⟨d,there,named⟩ := v.owedPending i (owed.mem_iff.mpr (List.mem_cons_of_mem _ member))
    have other : d ≠ c := by
      intro same
      subst same
      rw [← named, same] at member
      exact gone member
    rw [cut] at there
    refine ⟨d,?_,named⟩
    simpa [other] using there
  · have reply : (handleResponse (some rsp) n.process.clnt).replies =
        n.process.clnt.replies ++ [c.reply rsp.result] := by
      simp [handleResponse, found, Call.reply, Call.node]
    simp only [Net.taken, reply]
    refine List.rel_append v.replies (List.Forall₂.cons ?_ List.Forall₂.nil)
    exact ⟨rsp,v.delivered rsp flying,same.symm,rfl⟩
  · intro d done
    rcases List.mem_append.mp done with old | new
    · exact v.small d old
    · obtain rfl := List.mem_singleton.mp new
      exact small
  · intro d there sent fits
    have there : d ∈ before ++ after := there
    have pending : d ∈ l.pending := by
      rw [cut]
      simp only [List.mem_append, List.mem_cons] at there ⊢
      tauto
    rcases List.mem_cons.mp (owed.mem_iff.mp (v.awaited d pending sent fits)) with named | later
    · have itself := v.issued.sameId (v.issued.pendingCalls pending)
        (v.issued.pendingCalls (by rw [cut]; simp)) (named.trans same.symm)
      have apart := v.issued.pendingOnce
      rw [cut] at apart
      subst itself
      have absent := List.nodup_middle.mp apart
      exact absurd there (List.nodup_cons.mp absent).1
    · exact later

theorem Honest.dropped {n : Net ρ κ} {l : Ledger (Call ρ κ)} (v : Honest n l) {rsp : PbcRpcResponse}
    (flying : rsp ∈ n.flight) (large : ¬ rsp.id.toNat < 2 ^ 31) (below : rsp.id.toNat < 2 ^ 63) :
    Honest (n.taken {n.process with clnt := handleResponse (some rsp) n.process.clnt} rsp) l := by
  have owed := owedTaken flying {n.process with clnt := handleResponse (some rsp) n.process.clnt}
  obtain ⟨_,once⟩ := List.nodup_cons.mp (owed.nodup_iff.mp v.owedOnce)
  have none := unlinkLarge l.pending below (by omega)
  rw [← v.issued.outstanding] at none
  have outcome : (handleResponse (some rsp) n.process.clnt).outstanding = n.process.clnt.outstanding ∧
      (handleResponse (some rsp) n.process.clnt).replies = n.process.clnt.replies ∧
      (handleResponse (some rsp) n.process.clnt).nodes = n.process.clnt.nodes := by
    simp [handleResponse, none]
  have issued := v.issued.unchanged outcome.2.2 outcome.1 outcome.2.1
  refine ⟨issued,once,fun i member => v.owedPending i (owed.mem_iff.mpr (List.mem_cons_of_mem _ member)),
    v.askedOnce,v.askedCalls,fun r member => v.delivered r (List.mem_of_mem_erase member),?_,v.small,?_⟩
  · have answers := v.replies
    rw [← outcome.2.1] at answers
    exact answers
  · intro d there sent fits
    rcases List.mem_cons.mp (owed.mem_iff.mp (v.awaited d there sent fits)) with named | later
    · rw [named] at fits
      contradiction
    · exact later

theorem honestDeliver {n : Net ρ κ} {l : Ledger (Call ρ κ)} (v : Honest n l) {rsp : PbcRpcResponse}
    (flying : rsp ∈ n.flight) :
    ∃ m, Honest (n.taken {n.process with clnt := handleResponse (some rsp) n.process.clnt} rsp) m := by
  obtain ⟨c,pending,same,below⟩ := v.addressee flying
  by_cases small : c.id.toNat < 2 ^ 31
  · obtain ⟨before,after,cut⟩ := List.append_of_mem pending
    exact ⟨_,v.completed flying cut same small⟩
  · rw [same] at small below
    exact ⟨l,v.dropped flying small below⟩

theorem honestStep {n t : Net ρ κ} {l : Ledger (Call ρ κ)} (v : Honest n l) {pb : Protobuf}
    {e : NetEvent ρ κ} (h : netStep pb n e = some t) : ∃ m, Honest t m := by
  cases e with
  | call memory method msg replymsg args =>
    obtain ⟨p,taken,same⟩ := Option.bind_eq_some_iff.mp h
    cases Option.some.inj same
    exact honestCall v taken
  | elsewhere =>
    obtain ⟨p,taken,rfl⟩ := Option.map_eq_some_iff.mp h
    obtain ⟨clnt,calls,issued⟩ := issuedElsewhere v.issued taken
    exact ⟨l,v.quiet issued calls (by rw [clnt])⟩
  | answer rsp =>
    simp only [netStep] at h
    split at h
    · rename_i waiting
      cases Option.some.inj h
      exact ⟨l,honestAnswer v waiting⟩
    · cases h
  | deliver msg =>
    simp only [netStep] at h
    split at h
    · rename_i rsp size read
      split at h
      · rename_i flying
        obtain ⟨p,taken,rfl⟩ := Option.map_eq_some_iff.mp h
        obtain ⟨r,n,decoded,rfl⟩ := receiveStep taken
        rw [read] at decoded
        cases Except.ok.inj decoded
        exact honestDeliver v flying
      · cases h
    · cases h

theorem honest {pb : Protobuf} {n : Net ρ κ} (h : (network pb).Reachable n) : ∃ l, Honest n l := by
  apply (network pb).reachableInvariant (J := fun n => ∃ l, Honest n l) _ _ h
  · intro s started
    cases started
    have fresh : Issued (Process.new : Process ρ κ) ⟨[],[],[]⟩ := issuedNew
    exact ⟨⟨[],[],[]⟩,fresh,List.nodup_nil,by simp [Net.owed],List.nodup_nil,by simp [Net.asked],
      by simp,List.Forall₂.nil,by simp,by simp⟩
  · intro s e t kept taken
    obtain ⟨l,v⟩ := kept
    exact honestStep v taken

theorem drainedExactly {pb : Protobuf} {n : Net ρ κ} (h : (network pb).Reachable n)
    (answered : n.waiting = []) (delivered : n.flight = [])
    (sent : ∀ c ∈ n.process.calls, c.sent = true) :
    n.process.clnt.outstanding = [] ↔ ∀ c ∈ n.process.calls, c.id.toNat < 2 ^ 31 := by
  obtain ⟨l,v⟩ := honest h
  have nothing : n.owed = [] := by simp [Net.owed, answered, delivered]
  have balanced := Ledger.balanced v.issued.ledger
  constructor
  · intro empty c called
    have none : l.pending = [] := List.map_eq_nil_iff.mp (v.issued.outstanding ▸ empty)
    have done : c ∈ l.done := by
      by_contra waiting
      have pending : c ∈ l.pending := by
        rw [balanced.pendingRest]
        exact List.mem_filter.mpr ⟨v.issued.calls ▸ called,by simpa using waiting⟩
      rw [none] at pending
      contradiction
    exact v.small c done
  · intro small
    rw [v.issued.outstanding, List.map_eq_nil_iff]
    apply List.eq_nil_iff_forall_not_mem.mpr
    intro c pending
    have called := v.issued.pendingCalls pending
    have owed := v.awaited c pending (sent c called) (small c called)
    rw [nothing] at owed
    contradiction

/- A response to an outstanding call completes it exactly when the id is below 2^31, whatever
arrived before; and when every request was answered and every response delivered, nothing is
outstanding exactly when all the ids were. -/
theorem repliesReachCalls (pb : Protobuf) :
    (∀ p : Process ρ κ, (system pb).Reachable p → ∀ c ∈ p.calls, c.node ∈ p.clnt.outstanding →
      ∀ msg rsp size, readMessage pb.response msg = .ok (some rsp,size) → rsp.id = c.id →
        (Completes pb msg rsp.result c p.clnt ↔ c.id.toNat < 2 ^ 31)) ∧
    ∀ n : Net ρ κ, (network pb).Reachable n → n.waiting = [] → n.flight = [] →
      (∀ c ∈ n.process.calls, c.sent = true) →
        (n.process.clnt.outstanding = [] ↔ ∀ c ∈ n.process.calls, c.id.toNat < 2 ^ 31) :=
  ⟨fun _ reached _ called outstanding _ _ _ read same =>
      responseCompletes reached called outstanding read same,
    fun _ reached answered delivered sent => drainedExactly reached answered delivered sent⟩

def firstCall : Call Unit Nat := ⟨0,1,(),5,true⟩
def firstResponse : PbcRpcResponse := ⟨1,[8,1],none⟩
def callEvents : List (Event Unit Nat) := [.call ⟨true,true,true⟩ (cstr "ping") [8,1] () 5]
def roundTrip : List (NetEvent Unit Nat) :=
  [.call ⟨true,true,true⟩ (cstr "ping") [8,1] () 5,.answer firstResponse,
    .deliver (frame (wire.response.pack firstResponse))]

theorem firstReplyArrives : ∃ p n,
    (system wire).run Process.new callEvents = some p ∧
    Completes wire (frame (wire.response.pack firstResponse)) [8,1] firstCall p.clnt ∧
    (network wire).run ⟨.new,[],[],[]⟩ roundTrip = some n ∧ n.process.clnt.outstanding = [] := by
  obtain ⟨arrives,drains⟩ := repliesReachCalls (ρ := Unit) (κ := Nat) wire
  have one := arrives _ ⟨_,callEvents,rfl,rfl⟩ firstCall (by decide) (by decide)
    (frame (wire.response.pack firstResponse)) firstResponse 14 rfl rfl
  have all := drains _ ⟨_,roundTrip,rfl,rfl⟩ rfl rfl (by decide)
  exact ⟨_,_,rfl,one.mpr (by decide),rfl,all.mpr (by decide)⟩

def lostCall : Call Unit Nat := ⟨0,BitVec.ofNat 64 (2 ^ 31),(),5,true⟩
def lostResponse : PbcRpcResponse := ⟨BitVec.ofNat 64 (2 ^ 31),[8,1],none⟩

/- The call with the id 2^31: its response has its id, and the call is not completed. -/
theorem replyLost : ∃ p : Process Unit Nat, (system wire).Reachable p ∧ lostCall ∈ p.calls ∧
    lostCall.node ∈ p.clnt.outstanding ∧
    readMessage wire.response (frame (wire.response.pack lostResponse)) = .ok (some lostResponse,18) ∧
    lostResponse.id = lostCall.id ∧
    ¬ Completes wire (frame (wire.response.pack lostResponse)) [8,1] lostCall p.clnt := by
  have before := elsewhereRun (ρ := Unit) (κ := Nat) wire (2 ^ 31 - 1) (by decide)
  have reached : (system wire).Reachable {Process.new with idGen := BitVec.ofNat 64 (2 ^ 31 - 1)} :=
    ⟨_,_,rfl,before⟩
  have called := reached.next (e := .call ⟨true,true,true⟩ (cstr "ping") [8,1] () 5) rfl
  refine ⟨_,called,by decide,by decide,rfl,rfl,?_⟩
  intro completes
  have read : readMessage wire.response (frame (wire.response.pack lostResponse)) =
      .ok (some lostResponse,18) := rfl
  have small := (responseCompletes called (c := lostCall) (by decide) (by decide) read rfl).mp completes
  revert small
  decide

/- The entries left are those of the calls without a reply, in the order of the calls; no reply
runs twice, and each is run with its own call's arguments on the one response to it. -/
theorem repliesNeverCross {pb : Protobuf} {n : Net ρ κ} (h : (network pb).Reachable n) :
    n.process.clnt.outstanding = (n.process.calls.filter
      (fun c => c.entry ∉ n.process.clnt.replies.map Reply.entry)).map Call.node ∧
    (n.process.clnt.replies.map Reply.entry).Nodup ∧ (n.process.calls.map Call.entry).Nodup ∧
    ∀ reply ∈ n.process.clnt.replies, ∃ c ∈ n.process.calls, ∃ rsp ∈ n.answered,
      reply = c.reply rsp.result ∧ rsp.id = c.id ∧ ∀ other ∈ n.answered, other.id = c.id → other = rsp := by
  obtain ⟨l,v⟩ := honest h
  have balanced := Ledger.balanced v.issued.ledger
  have ran : n.process.clnt.replies.map Reply.entry = l.done.map Call.entry := by
    rw [← List.forall₂_eq_eq_eq, List.forall₂_map_left_iff, List.forall₂_map_right_iff]
    apply v.replies.imp
    intro reply c h
    obtain ⟨_,_,_,rfl⟩ := h
    rfl
  have entries : (n.process.calls.map Call.entry).Nodup :=
    List.pairwise_map.mpr (v.issued.entries.imp Nat.ne_of_lt)
  have doneCalls : ∀ c ∈ l.done, c ∈ n.process.calls := by
    rw [v.issued.calls]
    exact balanced.doneIssued
  refine ⟨?_,?_,entries,?_⟩
  · rw [v.issued.outstanding, balanced.pendingRest, ← v.issued.calls, ran]
    congr 1
    apply List.filter_congr
    intro c called
    have same : c ∈ l.done ↔ c.entry ∈ l.done.map Call.entry := by
      constructor
      · exact List.mem_map_of_mem
      · intro member
        obtain ⟨d,done,entry⟩ := List.mem_map.mp member
        rw [← v.issued.sameEntry (doneCalls d done) called entry]
        exact done
    simp only [same]
  · rw [ran]
    exact List.Nodup.map_on (fun c left d right same =>
      v.issued.sameEntry (doneCalls c left) (doneCalls d right) same) balanced.doneOnce
  · intro reply member
    obtain ⟨c,done,rsp,answered,id,same⟩ := Ledger.matched v.replies member
    refine ⟨c,doneCalls c done,rsp,answered,same,id,?_⟩
    intro other there equal
    have once := (List.nodup_append.mp v.askedOnce).1
    exact List.inj_on_of_nodup_map once there answered (equal.trans id.symm)

def laterFirst : List (NetEvent Unit Nat) :=
  [.call ⟨true,true,true⟩ (cstr "ping") [8,1] () 5,.call ⟨true,true,true⟩ (cstr "ping") [8,2] () 6,
    .answer ⟨2,[8,2],none⟩,.deliver (frame (wire.response.pack ⟨2,[8,2],none⟩))]

theorem laterReplyFirst : ∃ n, (network wire).run ⟨.new,[],[],[]⟩ laterFirst = some n ∧
    n.process.clnt.outstanding = [firstCall.node] ∧
    ∀ reply ∈ n.process.clnt.replies, ∃ c ∈ n.process.calls, reply.ctx = c.ctx := by
  have reached : (network wire).Reachable _ := ⟨_,laterFirst,rfl,rfl⟩
  obtain ⟨outstanding,_,_,own⟩ := repliesNeverCross reached
  refine ⟨_,rfl,outstanding,?_⟩
  intro reply member
  obtain ⟨c,called,rsp,_,same,_⟩ := own reply member
  exact ⟨c,called,by rw [same]; rfl⟩

end VmpRl.PbrpcSession
