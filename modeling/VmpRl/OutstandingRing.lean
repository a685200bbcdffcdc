import VmpRl.Base.Allocation
import VmpRl.Base.Ring
import VmpRl.Base.Scan
import VmpRl.PbrpcCalls
import VmpRl.PbrpcWire

/-! The outstanding calls of a client in memory: the addresses that calloc gives, the links that calls and responses
write, and the loop over the list. With HAVE_VPK, as `configure.ac` has it, the lists are those of `vpk/vpk_list.h`,
which is not among the sources; its operations are a parameter here, with what is documented of them. Those of `list.h`
do that. -/
namespace VmpRl.OutstandingRing
open Octets CRuntime PbrpcMessages PbrpcXdr PbrpcClient Scan Rings Allocation

variable {α ρ κ : Type}

structure Payload (ρ κ : Type) where
  id : BitVec 32
  replymsg : ρ
  ctx : κ

abbrev Memory (α ρ κ : Type) := Heap α (Option (Payload ρ κ))

/- `next` is what `list_for_each_entry_safe` goes by, and `Linked h head cells` that the list of `head` has the cells in
this order. -/
structure ListHeads (α β : Type) where
  null : α
  initListHead : Heap α β → α → Run (Heap α β)
  listAddTail : Heap α β → α → α → Run (Heap α β)
  listDelInit : Heap α β → α → Run (Heap α β)
  next : Heap α β → α → Option α
  Linked : Heap α β → α → List α → Prop

structure SameCells {β : Type} (h h' : Heap α β) : Prop where
  there : ∀ a, There h' a ↔ There h a
  values : ∀ a, valueOf h' a = valueOf h a

structure ListHeads.Lawful {β : Type} (L : ListHeads α β) : Prop where
  apart : ∀ {h head cells}, L.Linked h head cells → (head :: cells).Nodup
  there : ∀ {h head cells}, L.Linked h head cells → ∀ a ∈ head :: cells, There h a
  kept : ∀ {h h' head cells}, L.Linked h head cells → (∀ a ∈ head :: cells, nextOf h' a = nextOf h a) →
    (∀ a ∈ head :: cells, prevOf h' a = prevOf h a) → L.Linked h' head cells
  next : ∀ {h head cells before a rest}, L.Linked h head cells → head :: cells = before ++ a :: rest →
    L.next h a = (rest ++ [head]).head?
  initListHead : ∀ {h head}, There h head →
    ∃ h', L.initListHead h head = .ok h' ∧ L.Linked h' head [] ∧ SameCells h h'
  listAddTail : ∀ {h head cells new}, L.Linked h head cells → There h new → new ∉ head :: cells →
    ∃ h', L.listAddTail h new head = .ok h' ∧ L.Linked h' head (cells ++ [new]) ∧ SameCells h h'
  listDelInit : ∀ {h head before c after}, L.Linked h head (before ++ c :: after) →
    ∃ h', L.listDelInit h c = .ok h' ∧ L.Linked h' head (before ++ after) ∧ SameCells h h'

section ListHead
variable [DecidableEq α] {β : Type}

def storeNext (h : Heap α β) (a v : α) : Run (Heap α β) :=
  if There h a then .ok (withNext h a v) else .error .outOfBounds

def storePrev (h : Heap α β) (a v : α) : Run (Heap α β) :=
  if There h a then .ok (withPrev h a v) else .error .outOfBounds

def initListHead (h : Heap α β) (head : α) : Run (Heap α β) := do
  let h ← storePrev h head head
  storeNext h head head

/- `new->prev->next` and `new->next->prev` go through the fields of `new` written before. -/
def listAddTail (h : Heap α β) (new head : α) : Run (Heap α β) := do
  let h ← storeNext h new head
  let prev ← present (prevOf h head)
  let h ← storePrev h new prev
  let before ← present (prevOf h new)
  let h ← storeNext h before new
  let behind ← present (nextOf h new)
  storePrev h behind new

def listDelInit (h : Heap α β) (old : α) : Run (Heap α β) := do
  let before ← present (prevOf h old)
  let next ← present (nextOf h old)
  let h ← storeNext h before next
  let behind ← present (nextOf h old)
  let prev ← present (prevOf h old)
  let h ← storePrev h behind prev
  let h ← storeNext h old old
  storePrev h old old

theorem initListHeadAlone {h : Heap α β} {head : α} (there : There h head) :
    ∃ h', initListHead h head = .ok h' ∧ Ringed h' [head] ∧ SameCells h h' := by
  refine ⟨withNext (withPrev h head head) head head,?_,?_,by simp,by simp⟩
  · simp [initListHead, storeNext, storePrev, bind, Except.bind, there]
  · exact ringAlone (by simp [there]) (by simp [there])

theorem addTailBehind {h : Heap α β} {head new : α} {cells : List α} (ring : Ringed h (head :: cells))
    (there : There h new) (fresh : new ∉ head :: cells) :
    ∃ h', listAddTail h new head = .ok h' ∧ Ringed h' (head :: (cells ++ [new])) ∧ SameCells h h' := by
  obtain ⟨p,last⟩ := Option.isSome_iff_exists.mp (List.getLast?_isSome.mpr (List.cons_ne_nil head cells))
  refine ⟨inserted h p new head,?_,ringInserted ring last there fresh,by simp [inserted],by simp [inserted]⟩
  have prev := ((ringOpen.mp ring).2.2 p last).2
  have headThere := ringThere ring (List.mem_cons_self (a := head) (l := cells))
  have pThere := ringThere ring (List.mem_of_getLast? last)
  have notP : new ≠ p := fun same => fresh (same ▸ List.mem_of_getLast? last)
  simp [listAddTail, storeNext, storePrev, present, bind, Except.bind, there, prev, headThere, pThere, notP, inserted]

theorem delInitBypassed {h : Heap α β} {n p old : α} {xs : List α} (ring : Ringed h (n :: xs ++ [old]))
    (last : (n :: xs).getLast? = some p) :
    listDelInit h old = .ok (withPrev (withNext (bypassed h p n) old old) old old) := by
  have around : Ringed h (old :: (n :: xs)) := ringTurned (n :: xs) [old] ring
  obtain ⟨nodup,chain,closed⟩ := ringOpen.mp around
  have isLast : (old :: n :: xs).getLast? = some p := by rw [List.getLast?_cons_cons, last]
  have prev := (closed p isLast).2
  have next := (List.isChain_cons_cons.mp chain).1.1
  have oldThere := ringThere around List.mem_cons_self
  have nThere := ringThere around (List.mem_cons_of_mem _ (List.mem_cons_self (a := n) (l := xs)))
  have pThere := ringThere around (List.mem_of_getLast? isLast)
  have notP : old ≠ p := fun same => (List.nodup_cons.mp nodup).1 (same ▸ List.mem_of_getLast? last)
  simp [listDelInit, storeNext, storePrev, present, bind, Except.bind, prev, next, oldThere, nThere, pThere, notP,
    bypassed]

theorem delInitKeeps {h : Heap α β} {head c : α} {before after : List α}
    (ring : Ringed h (head :: (before ++ c :: after))) :
    ∃ h', listDelInit h c = .ok h' ∧ Ringed h' (head :: (before ++ after)) ∧ SameCells h h' := by
  have opened : Ringed h ((head :: before ++ [c]) ++ after) := by
    rw [List.append_assoc]
    exact ring
  have turned : Ringed h ((after ++ head :: before) ++ [c]) := by
    rw [List.append_assoc]
    exact ringTurned _ _ opened
  have apart : c ∉ after ++ head :: before := (List.nodup_cons.mp (ringTurned _ [c] turned).nodup).1
  cases left : after ++ head :: before with
  | nil => exact absurd left (by simp)
  | cons n xs =>
    rw [left] at turned apart
    obtain ⟨p,last⟩ := Option.isSome_iff_exists.mp (List.getLast?_isSome.mpr (List.cons_ne_nil n xs))
    have around : Ringed (withPrev (withNext (bypassed h p n) c c) c c) (after ++ head :: before) := by
      rw [left]
      refine ringKept (ringBypassed turned last) ?_ ?_
      · intro a member
        have notC : a ≠ c := fun same => apart (same ▸ member)
        simp [notC]
      · intro a member
        have notC : a ≠ c := fun same => apart (same ▸ member)
        simp [notC]
    exact ⟨_,delInitBypassed turned last,ringTurned after (head :: before) around,⟨by simp [bypassed],by simp [bypassed]⟩⟩

def listHeads (null : α) : ListHeads α β :=
  ⟨null,initListHead,listAddTail,listDelInit,nextOf,fun h head cells => Ringed h (head :: cells)⟩

theorem listHeadsLawful (null : α) : (listHeads null : ListHeads α β).Lawful where
  apart ring := ring.nodup
  there ring _ member := ringThere ring member
  kept ring nexts prevs := ringKept ring nexts prevs
  next ring split := ringNext ring _ split
  initListHead there := initListHeadAlone there
  listAddTail ring there fresh := addTailBehind ring there fresh
  listDelInit ring := delInitKeeps ring

end ListHead

abbrev Lists (α ρ κ : Type) := ListHeads α (Option (Payload ρ κ))
abbrev Calloc (α ρ κ : Type) := Malloc α (Cell α (Option (Payload ρ κ)))

variable [DecidableEq α]

def callocCell (L : Lists α ρ κ) (h : Memory α ρ κ) (a : α) : Memory α ρ κ :=
  Function.update h a (some ⟨L.null,L.null,none⟩)

def storeValue (h : Memory α ρ κ) (a : α) (v : Payload ρ κ) : Run (Memory α ρ κ) :=
  if There h a then .ok (withValue h a (some v)) else .error .outOfBounds

def freeCell (h : Memory α ρ κ) (a : α) : Run (Memory α ρ κ) :=
  if There h a then .ok (Function.update h a none) else .error .outOfBounds

structure Called (ρ κ : Type) where
  replymsg : ρ
  ctx : κ
  result : Bytes
  ret : Int
  deriving DecidableEq, Repr

structure Client (α ρ κ : Type) where
  heap : Memory α ρ κ
  head : α
  allocated : Nat
  writes : List Write
  reads : List (Option PbcRpcResponse)
  replies : List (Called ρ κ)

def newClient (L : Lists α ρ κ) (head : α) : Run (Client α ρ κ) := do
  let heap ← L.initListHead (callocCell L (fun _ => none) head) head
  .ok ⟨heap,head,1,[],[],[]⟩

structure CallArgs (ρ κ : Type) where
  mth : Bool
  rbuf : Bool
  method : CString
  msg : Bytes
  replymsg : ρ
  args : κ

def rpcWriteRequest (pb : Protobuf) (calloc : Bool) (reqhdr : PbcRpcRequest) : List Write :=
  if calloc then [⟨some (packedBuffer pb.request reqhdr),pb.request.getPackedSize reqhdr + 8⟩] else []

def pbrpcClntCall (pb : Protobuf) (L : Lists α ρ κ) (M : Calloc α ρ κ) (idGen : BitVec 64) (clnt : Client α ρ κ)
    (call : CallArgs ρ κ) : Run (Int × BitVec 64 × Client α ρ κ) :=
  if call.mth then
    let reqhdr : PbcRpcRequest := ⟨(nextId idGen).1,call.method,some call.msg⟩
    let counted := {clnt with allocated := clnt.allocated + 1}
    match M.give clnt.allocated clnt.heap with
    | none => .ok (-1,(nextId idGen).2,counted)
    | some entry => do
      let heap ← L.listAddTail (callocCell L clnt.heap entry) entry clnt.head
      let heap ← storeValue heap entry ⟨reqhdr.id.setWidth 32,call.replymsg,call.args⟩
      .ok (0,(nextId idGen).2,
        {counted with heap := heap, writes := clnt.writes ++ rpcWriteRequest pb call.rbuf reqhdr})
  else .ok (-1,idGen,clnt)

structure Walk (α : Type) where
  call : α
  tmp : α

def payloadOf (h : Memory α ρ κ) (a : α) : Option (Payload ρ κ) := (valueOf h a).bind id

def searchRound (L : Lists α ρ κ) (h : Memory α ρ κ) (head : α) (id : BitVec 64) (w : Walk α) :
    Run (Round (Walk α) (Option (Memory α ρ κ × α))) :=
  if w.call = head then .ok (.over none)
  else do
    let call ← present (payloadOf h w.call)
    if call.id.signExtend 64 == id then do
      let h ← L.listDelInit h w.call
      .ok (.over (some (h,w.call)))
    else do
      let next ← present (L.next h w.tmp)
      .ok (.again ⟨w.tmp,next⟩)

def search (L : Lists α ρ κ) (clnt : Client α ρ κ) (id : BitVec 64) : Run (Option (Memory α ρ κ × α)) := do
  let call ← present (L.next clnt.heap clnt.head)
  let tmp ← present (L.next clnt.heap call)
  loop (searchRound L clnt.heap clnt.head id) .endless (clnt.allocated + 1) ⟨call,tmp⟩

def calls (pb : Protobuf) (L : Lists α ρ κ) (M : Calloc α ρ κ) : BitVec 64 → Client α ρ κ → List (CallArgs ρ κ) →
    Run (BitVec 64 × Client α ρ κ)
  | idGen, clnt, [] => .ok (idGen,clnt)
  | idGen, clnt, call :: rest => do
    let made ← pbrpcClntCall pb L M idGen clnt call
    calls pb L M made.2.1 made.2.2 rest

/- `process_response` after `rpc_read_rsp`. The callback may make calls of its own, before its entry is freed. -/
def handleResponse (pb : Protobuf) (L : Lists α ρ κ) (M : Calloc α ρ κ) (rsp : Option PbcRpcResponse)
    (callback : List (CallArgs ρ κ)) (idGen : BitVec 64) (clnt : Client α ρ κ) :
    Run (BitVec 64 × Client α ρ κ) :=
  let clnt := {clnt with reads := clnt.reads ++ [rsp]}
  match rsp with
  | none => .ok (idGen,clnt)
  | some rsp => do
    match ← search L clnt rsp.id with
    | none => .ok (idGen,clnt)
    | some (heap,call) => do
      let node ← present (payloadOf heap call)
      let replied := {clnt with heap := heap,
                                replies := clnt.replies ++ [⟨node.replymsg,node.ctx,rsp.result,0⟩]}
      let (idGen,clnt) ← calls pb L M idGen replied callback
      let heap ← freeCell clnt.heap call
      .ok (idGen,{clnt with heap := heap})

inductive Event (ρ κ : Type) where
  | call (call : CallArgs ρ κ)
  | response (rsp : Option PbcRpcResponse) (callback : List (CallArgs ρ κ))

def runEvents (pb : Protobuf) (L : Lists α ρ κ) (M : Calloc α ρ κ) : BitVec 64 → Client α ρ κ → List (Event ρ κ) →
    Run (BitVec 64 × Client α ρ κ)
  | idGen, clnt, [] => .ok (idGen,clnt)
  | idGen, clnt, .call call :: rest => do
    let made ← pbrpcClntCall pb L M idGen clnt call
    runEvents pb L M made.2.1 made.2.2 rest
  | idGen, clnt, .response rsp callback :: rest => do
    let handled ← handleResponse pb L M rsp callback idGen clnt
    runEvents pb L M handled.1 handled.2 rest

def answered (rsp : Option PbcRpcResponse) (s : Clnt ρ κ) : Bool := match rsp with
  | none => false
  | some rsp => (unlink rsp.id s.outstanding).isSome

structure Listed (ρ κ : Type) where
  idGen : BitVec 64
  allocated : Nat
  clnt : Clnt ρ κ

def listCall (pb : Protobuf) (gives : Nat → Bool) (s : Listed ρ κ) (call : CallArgs ρ κ) : Listed ρ κ :=
  let made := PbrpcClient.pbrpcClntCall pb ⟨call.mth,gives s.allocated,call.rbuf⟩ s.idGen s.clnt call.method call.msg
    call.replymsg call.args
  ⟨made.2.1,if call.mth then s.allocated + 1 else s.allocated,made.2.2⟩

def listEvent (pb : Protobuf) (gives : Nat → Bool) (s : Listed ρ κ) : Event ρ κ → Listed ρ κ
  | .call call => listCall pb gives s call
  | .response rsp callback =>
    let heard := {s with clnt := PbrpcClient.handleResponse rsp s.clnt}
    if answered rsp s.clnt then callback.foldl (listCall pb gives) heard else heard

def listEvents (pb : Protobuf) (gives : Nat → Bool) (s : Listed ρ κ) (events : List (Event ρ κ)) : Listed ρ κ :=
  events.foldl (listEvent pb gives) s

/- The memory of a client and the list that it stands for. `loose` are the entries out of the list that are not
freed yet; nothing else is there. -/
structure Stands (L : Lists α ρ κ) (clnt : Client α ρ κ) (loose cells : List α) (s : Clnt ρ κ) : Prop where
  linked : L.Linked clnt.heap clnt.head cells
  there : ∀ a, There clnt.heap a ↔ a ∈ clnt.head :: cells ∨ a ∈ loose
  apart : ∀ a ∈ loose, a ∉ clnt.head :: cells
  payloads : cells.map (payloadOf clnt.heap) = s.outstanding.map (fun n => some ⟨n.id,n.replymsg,n.ctx⟩)
  enough : cells.length + loose.length < clnt.allocated
  writes : clnt.writes = s.writes
  reads : clnt.reads = s.reads
  replies : clnt.replies = s.replies.map (fun r => ⟨r.replymsg,r.ctx,r.result,r.ret⟩)

omit [DecidableEq α] in
theorem payloadKept {h h' : Memory α ρ κ} {cells : List α} (kept : ∀ a ∈ cells, valueOf h' a = valueOf h a) :
    cells.map (payloadOf h') = cells.map (payloadOf h) := by
  apply List.map_congr_left
  intro a member
  unfold payloadOf
  rw [kept a member]

section Steps
variable {L : Lists α ρ κ} (lawful : L.Lawful)

include lawful in
theorem entryAdded {clnt : Client α ρ κ} {loose cells : List α} {s : Clnt ρ κ} (stands : Stands L clnt loose cells s)
    {entry : α} (absent : ¬ There clnt.heap entry) (payload : Payload ρ κ) :
    ∃ h h', L.listAddTail (callocCell L clnt.heap entry) entry clnt.head = .ok h ∧
      storeValue h entry payload = .ok h' ∧ L.Linked h' clnt.head (cells ++ [entry]) ∧
      (∀ a, There h' a ↔ a = entry ∨ There clnt.heap a) ∧
      (cells ++ [entry]).map (payloadOf h') = cells.map (payloadOf clnt.heap) ++ [some payload] := by
  have fresh : entry ∉ clnt.head :: cells := fun member => absent (lawful.there stands.linked entry member)
  have notEntry : ∀ a ∈ clnt.head :: cells, a ≠ entry := fun a member same => fresh (same ▸ member)
  have there : There (callocCell L clnt.heap entry) entry := by
    unfold callocCell
    rw [thereUpdate, if_pos rfl]
    rfl
  have linked : L.Linked (callocCell L clnt.heap entry) clnt.head cells :=
    lawful.kept stands.linked (fun a member => nextUpdate (notEntry a member) _)
      (fun a member => prevUpdate (notEntry a member) _)
  obtain ⟨h,added,grown,same⟩ := lawful.listAddTail linked there fresh
  have still : There h entry := (same.there entry).mpr there
  refine ⟨h,_,added,if_pos still,?_,?_,?_⟩
  · exact lawful.kept grown (fun a _ => nextWithValue _ _ _ a) (fun a _ => prevWithValue _ _ _ a)
  · intro a
    rw [thereWithValue, same.there]
    unfold callocCell
    rw [thereUpdate]
    by_cases isEntry : a = entry
    · simp [isEntry]
    · simp [isEntry]
  · rw [List.map_append]
    refine congrArg₂ (· ++ ·) (payloadKept ?_) ?_
    · intro a member
      have apart := notEntry a (List.mem_cons_of_mem _ member)
      rw [valueWithValue, if_neg (fun both => apart both.1), same.values]
      exact valueUpdate apart _
    · have value : valueOf (withValue h entry (some payload)) entry = some (some payload) := by
        rw [valueWithValue, if_pos ⟨rfl,still⟩]
      rw [List.map_singleton, payloadOf, value]
      rfl

omit [DecidableEq α] in
theorem requestWritten (pb : Protobuf) (calloc : Bool) (s : Clnt ρ κ) (reqhdr : PbcRpcRequest) :
    (PbrpcClient.rpcWriteRequest pb calloc s reqhdr).2 =
      {s with writes := s.writes ++ rpcWriteRequest pb calloc reqhdr} := by
  unfold PbrpcClient.rpcWriteRequest rpcWriteRequest
  split
  · rfl
  · rw [List.append_nil]

omit [DecidableEq α] in
theorem callocAbsent {M : Calloc α ρ κ} {clnt : Client α ρ κ} {loose cells : List α} {s : Clnt ρ κ}
    (stands : Stands L clnt loose cells s) {entry : α} (given : M.give clnt.allocated clnt.heap = some entry) :
    ¬ There clnt.heap entry := by
  have few : (clnt.head :: cells ++ loose).length ≤ clnt.allocated := by
    have enough := stands.enough
    rw [List.length_append, List.length_cons]
    omega
  have none := Malloc.given given _ few (fun a there => List.mem_append.mpr ((stands.there a).mp there))
  unfold There
  rw [none]
  exact Bool.false_ne_true

include lawful in
theorem callStands (pb : Protobuf) (M : Calloc α ρ κ) (idGen : BitVec 64) {clnt : Client α ρ κ}
    {loose cells : List α} {s : Clnt ρ κ} (stands : Stands L clnt loose cells s) (call : CallArgs ρ κ) :
    ∃ ret clnt' cells', pbrpcClntCall pb L M idGen clnt call =
        .ok (ret,(listCall pb M.gives ⟨idGen,clnt.allocated,s⟩ call).idGen,clnt') ∧
      ret = (PbrpcClient.pbrpcClntCall pb ⟨call.mth,M.gives clnt.allocated,call.rbuf⟩ idGen s call.method call.msg
        call.replymsg call.args).1 ∧
      clnt'.allocated = (listCall pb M.gives ⟨idGen,clnt.allocated,s⟩ call).allocated ∧
      Stands L clnt' loose cells' (listCall pb M.gives ⟨idGen,clnt.allocated,s⟩ call).clnt := by
  unfold pbrpcClntCall listCall PbrpcClient.pbrpcClntCall
  cases call.mth with
  | false => exact ⟨_,clnt,cells,rfl,rfl,rfl,stands⟩
  | true =>
    have outcome := M.giveIsSome clnt.allocated clnt.heap
    cases given : M.give clnt.allocated clnt.heap with
    | none =>
      rw [given] at outcome
      rw [← outcome]
      exact ⟨_,_,cells,rfl,rfl,rfl,stands.linked,stands.there,stands.apart,stands.payloads,
        Nat.lt_succ_of_lt stands.enough,stands.writes,stands.reads,stands.replies⟩
    | some entry =>
      rw [given] at outcome
      rw [← outcome]
      have absent := callocAbsent stands given
      obtain ⟨h,h',added,stored,linked,there,payloads⟩ := entryAdded lawful stands absent
        ⟨(nextId idGen).1.setWidth 32,call.replymsg,call.args⟩
      simp only [if_true, added, stored, bind, Except.bind, requestWritten, Option.isSome_some]
      refine ⟨_,_,cells ++ [entry],rfl,rfl,rfl,linked,?_,?_,?_,?_,?_,stands.reads,stands.replies⟩
      · intro a
        rw [there, stands.there]
        simp only [List.mem_cons, List.mem_append, List.not_mem_nil, or_false]
        tauto
      · intro a isLoose member
        have before : There clnt.heap a := (stands.there a).mpr (Or.inr isLoose)
        have notEntry : a ≠ entry := fun same => absent (same ▸ before)
        simp only [List.mem_cons, List.mem_append, List.not_mem_nil, or_false, notEntry] at member
        exact stands.apart a isLoose (List.mem_cons.mpr member)
      · rw [payloads, stands.payloads, List.map_append]
        rfl
      · have enough := stands.enough
        dsimp only
        rw [List.length_append, List.length_singleton]
        omega
      · exact congrArg (· ++ rpcWriteRequest pb call.rbuf _) stands.writes

include lawful in
theorem callsStand (pb : Protobuf) (M : Calloc α ρ κ) (made : List (CallArgs ρ κ)) (idGen : BitVec 64)
    {clnt : Client α ρ κ} {loose cells : List α} {s : Clnt ρ κ} (stands : Stands L clnt loose cells s) :
    ∃ clnt' cells', calls pb L M idGen clnt made =
        .ok ((made.foldl (listCall pb M.gives) ⟨idGen,clnt.allocated,s⟩).idGen,clnt') ∧
      clnt'.allocated = (made.foldl (listCall pb M.gives) ⟨idGen,clnt.allocated,s⟩).allocated ∧
      Stands L clnt' loose cells' (made.foldl (listCall pb M.gives) ⟨idGen,clnt.allocated,s⟩).clnt := by
  induction made generalizing idGen clnt cells s with
  | nil => exact ⟨clnt,cells,rfl,rfl,stands⟩
  | cons call rest ih =>
    obtain ⟨ret,clnt₁,cells₁,called,_,counted,stands₁⟩ := callStands lawful pb M idGen stands call
    obtain ⟨clnt',cells',ran,total,stands'⟩ :=
      ih (listCall pb M.gives ⟨idGen,clnt.allocated,s⟩ call).idGen stands₁
    rw [counted] at ran total stands'
    refine ⟨clnt',cells',?_,total,stands'⟩
    simp only [calls, called, Bind.bind, Except.bind]
    exact ran

def Silent (h : Memory α ρ κ) (id : BitVec 64) (a : α) : Prop :=
  ∃ node, payloadOf h a = some node ∧ (node.id.signExtend 64 == id) = false

def Searching (L : Lists α ρ κ) (h : Memory α ρ κ) (head : α) (id : BitVec 64) (cells : List α) (w : Walk α) : Prop :=
  ∃ before rest, cells = before ++ rest ∧ (∀ a ∈ before, Silent h id a) ∧ (rest ++ [head]).head? = some w.call ∧
    L.next h w.call = some w.tmp

def Searched (L : Lists α ρ κ) (h : Memory α ρ κ) (id : BitVec 64) (cells : List α) :
    Option (Memory α ρ κ × α) → Prop
  | none => ∀ a ∈ cells, Silent h id a
  | some (h',a) => ∃ before after node, cells = before ++ a :: after ∧ (∀ b ∈ before, Silent h id b) ∧
      payloadOf h a = some node ∧ (node.id.signExtend 64 == id) = true ∧ L.listDelInit h a = .ok h'

omit [DecidableEq α] in
include lawful in
theorem nextOfMember {h : Memory α ρ κ} {head a : α} {cells : List α} (linked : L.Linked h head cells)
    (member : a ∈ head :: cells) : ∃ n, L.next h a = some n := by
  obtain ⟨before,rest,split⟩ := List.append_of_mem member
  refine Option.isSome_iff_exists.mp ?_
  rw [lawful.next linked split]
  cases rest with
  | nil => rfl
  | cons b rest => rfl

theorem walkPassed {head a : α} (before rest : List α) (nodup : (head :: (before ++ rest)).Nodup)
    (here : (rest ++ [head]).head? = some a) : (before ++ rest).idxOf a = before.length := by
  cases rest with
  | nil =>
    cases Option.some.inj here
    rw [List.append_nil] at nodup ⊢
    exact List.idxOf_of_notMem (List.nodup_cons.mp nodup).1
  | cons c rest =>
    cases Option.some.inj here
    have apart := (List.nodup_append.mp (List.nodup_cons.mp nodup).2).2.2
    have notBefore : a ∉ before := fun member => apart a member a List.mem_cons_self rfl
    rw [List.idxOf_append_of_notMem notBefore, List.idxOf_cons_self, Nat.add_zero]

include lawful in
theorem searchAdvances {h : Memory α ρ κ} {head : α} {cells : List α} (id : BitVec 64)
    (linked : L.Linked h head cells) (known : ∀ a ∈ cells, ∃ node, payloadOf h a = some node) :
    Advances (Searching L h head id cells) (Searched L h id cells) (fun w => cells.length - cells.idxOf w.call)
      (searchRound L h head id) := by
  have distinct := lawful.apart linked
  intro w searching
  obtain ⟨before,rest,split,silent,here,next⟩ := searching
  cases rest with
  | nil =>
    rw [List.append_nil] at split
    refine Or.inr ⟨none,?_,split ▸ silent⟩
    exact if_pos (Option.some.inj here).symm
  | cons c rest =>
    have isCall : w.call = c := (Option.some.inj here).symm
    have member : c ∈ cells := by simp [split]
    have notHead : c ≠ head := fun same => (List.nodup_cons.mp distinct).1 (same ▸ member)
    obtain ⟨node,payload⟩ := known c member
    cases answers : node.id.signExtend 64 == id with
    | true =>
      obtain ⟨h',deleted,_⟩ := lawful.listDelInit (split ▸ linked)
      refine Or.inr ⟨some (h',c),?_,before,rest,node,split,silent,payload,answers,deleted⟩
      simp only [searchRound, isCall, if_neg notHead, payload, present, bind, Except.bind, answers, if_true, deleted]
    | false =>
      have behind : (rest ++ [head]).head? = some w.tmp := by
        rw [← lawful.next linked (show head :: cells = head :: before ++ c :: rest by rw [split]; rfl), ← isCall, next]
      have inside : w.tmp ∈ head :: cells := by
        have member := List.mem_of_head? behind
        simp only [List.mem_append, List.mem_singleton] at member
        simp only [split, List.mem_cons, List.mem_append]
        tauto
      obtain ⟨n,later⟩ := nextOfMember lawful linked inside
      refine Or.inl ⟨⟨w.tmp,n⟩,?_,⟨before ++ [c],rest,by simp [split],?_,behind,later⟩,?_⟩
      · simp [searchRound, isCall, if_neg notHead, payload, present, bind, Except.bind, answers, later]
      · intro a passed
        rcases List.mem_append.mp passed with earlier | this
        · exact silent a earlier
        · exact ⟨node,List.mem_singleton.mp this ▸ payload,answers⟩
      · have nodup := split ▸ distinct
        have first := walkPassed before (c :: rest) nodup here
        have second := walkPassed (before ++ [c]) rest (by simpa using nodup) behind
        rw [List.append_assoc, List.length_append] at second
        have passed : (before ++ c :: rest).idxOf w.tmp = before.length + 1 := second
        have room : (before ++ c :: rest).length = before.length + (rest.length + 1) := List.length_append
        dsimp only
        rw [split, first, passed, room]
        omega

include lawful in
theorem searchEnds {clnt : Client α ρ κ} {loose cells : List α} {s : Clnt ρ κ} (stands : Stands L clnt loose cells s)
    (id : BitVec 64) : ∃ value, search L clnt id = .ok value ∧ Searched L clnt.heap id cells value := by
  have known : ∀ a ∈ cells, ∃ node, payloadOf clnt.heap a = some node := by
    intro a member
    have listed := stands.payloads ▸ List.mem_map_of_mem (f := payloadOf clnt.heap) member
    obtain ⟨n,_,same⟩ := List.mem_map.mp listed
    exact ⟨_,same.symm⟩
  obtain ⟨call,first⟩ := nextOfMember lawful stands.linked List.mem_cons_self
  have here : (cells ++ [clnt.head]).head? = some call :=
    (lawful.next stands.linked (show clnt.head :: cells = [] ++ clnt.head :: cells from rfl)).symm.trans first
  have inside : call ∈ clnt.head :: cells := by
    have member := List.mem_of_head? here
    simp only [List.mem_append, List.mem_singleton] at member
    simp only [List.mem_cons]
    tauto
  obtain ⟨tmp,second⟩ := nextOfMember lawful stands.linked inside
  have base : Searching L clnt.heap clnt.head id cells ⟨call,tmp⟩ :=
    ⟨[],cells,rfl,fun _ absent => absurd absent List.not_mem_nil,here,second⟩
  have rounds : cells.length - cells.idxOf call < clnt.allocated + 1 := by
    have enough := stands.enough
    omega
  obtain ⟨value,ran,found⟩ := loopRule (searchAdvances lawful id stands.linked known) .endless base _ rounds
  refine ⟨value,?_,found⟩
  simp only [search, first, second, present, bind, Except.bind]
  exact ran

omit [DecidableEq α] in
theorem silentAnswers {h : Memory α ρ κ} {id : BitVec 64} {cells : List α} {nodes : List (RpcNode ρ κ)}
    (payloads : cells.map (payloadOf h) = nodes.map (fun n => some ⟨n.id,n.replymsg,n.ctx⟩))
    (silent : ∀ a ∈ cells, Silent h id a) : ∀ n ∈ nodes, n.answers id = false := by
  intro n member
  have listed := payloads ▸ List.mem_map_of_mem (f := fun n : RpcNode ρ κ => some (⟨n.id,n.replymsg,n.ctx⟩ : Payload ρ κ)) member
  obtain ⟨a,inside,same⟩ := List.mem_map.mp listed
  obtain ⟨node,payload,no⟩ := silent a inside
  rw [payload] at same
  cases Option.some.inj same
  exact no

omit [DecidableEq α] in
include lawful in
theorem entryTaken {clnt : Client α ρ κ} {s : Clnt ρ κ} {before after : List α} {a : α} {h' : Memory α ρ κ}
    (stands : Stands L clnt [] (before ++ a :: after) s) (rsp : PbcRpcResponse)
    (silent : ∀ b ∈ before, Silent clnt.heap rsp.id b) {node : Payload ρ κ} (payload : payloadOf clnt.heap a = some node)
    (answers : (node.id.signExtend 64 == rsp.id) = true) (deleted : L.listDelInit clnt.heap a = .ok h') :
    answered (some rsp) s = true ∧ payloadOf h' a = some node ∧
      Stands L {clnt with heap := h', reads := clnt.reads ++ [some rsp],
                          replies := clnt.replies ++ [⟨node.replymsg,node.ctx,rsp.result,0⟩]} [a] (before ++ after)
        (PbrpcClient.handleResponse (some rsp) s) := by
  obtain ⟨_,same,linked,cells⟩ := lawful.listDelInit stands.linked
  cases Except.ok.inj (deleted.symm.trans same)
  have payloads := stands.payloads
  rw [List.map_append, List.map_cons] at payloads
  obtain ⟨nodesBefore,others,listed,earlier,joined⟩ := List.map_eq_append_iff.mp payloads.symm
  obtain ⟨n,nodesAfter,rfl,first,later⟩ := List.map_eq_cons_iff.mp joined
  cases Option.some.inj (first.trans payload)
  have found := PbrpcCalls.unlinkSplit (silentAnswers earlier.symm silent) answers nodesAfter
  rw [← listed] at found
  have kept : ∀ cells : List α, cells.map (payloadOf h') = cells.map (payloadOf clnt.heap) :=
    fun _ => payloadKept (fun b _ => cells.values b)
  refine ⟨by simp [answered, found],?_,?_⟩
  · unfold payloadOf at payload ⊢
    rw [cells.values, payload]
  · unfold PbrpcClient.handleResponse
    simp only [found]
    refine ⟨linked,?_,?_,?_,?_,stands.writes,?_,?_⟩
    · intro b
      rw [cells.there, stands.there]
      simp only [List.mem_cons, List.mem_append, List.not_mem_nil, or_false]
      tauto
    · intro b isLoose member
      rw [List.mem_singleton.mp isLoose] at member
      have distinct := lawful.apart stands.linked
      rw [← List.cons_append] at distinct
      have around : (a :: (clnt.head :: before ++ after)).Nodup := List.perm_middle.nodup_iff.mp distinct
      exact (List.nodup_cons.mp around).1 member
    · rw [kept, List.map_append, List.map_append, ← earlier, ← later]
    · have enough := stands.enough
      simp only [List.length_append, List.length_cons, List.length_nil] at enough ⊢
      omega
    · exact congrArg (· ++ [some rsp]) stands.reads
    · rw [stands.replies, List.map_append]
      rfl

include lawful in
theorem entryFreed {clnt : Client α ρ κ} {cells : List α} {s : Clnt ρ κ} {a : α} (stands : Stands L clnt [a] cells s) :
    ∃ h', freeCell clnt.heap a = .ok h' ∧ Stands L {clnt with heap := h'} [] cells s := by
  have there := (stands.there a).mpr (Or.inr List.mem_cons_self)
  have apart := stands.apart a List.mem_cons_self
  have others : ∀ b ∈ clnt.head :: cells, b ≠ a := fun b member same => apart (same ▸ member)
  refine ⟨_,if_pos there,?_,?_,?_,?_,Nat.lt_of_succ_lt stands.enough,stands.writes,stands.reads,stands.replies⟩
  · exact lawful.kept stands.linked (fun b member => nextUpdate (others b member) _)
      (fun b member => prevUpdate (others b member) _)
  · intro b
    rw [thereUpdate]
    split
    · rename_i same
      simpa [same] using apart
    · rename_i notA
      rw [stands.there]
      simp [notA]
  · intro b absent
    exact absurd absent List.not_mem_nil
  · rw [← stands.payloads]
    exact payloadKept (fun b member => valueUpdate (others b (List.mem_cons_of_mem _ member)) _)

include lawful in
theorem responseStands (pb : Protobuf) (M : Calloc α ρ κ) (rsp : Option PbcRpcResponse)
    (callback : List (CallArgs ρ κ)) (idGen : BitVec 64) {clnt : Client α ρ κ} {cells : List α} {s : Clnt ρ κ}
    (stands : Stands L clnt [] cells s) :
    ∃ clnt' cells', handleResponse pb L M rsp callback idGen clnt =
        .ok ((listEvent pb M.gives ⟨idGen,clnt.allocated,s⟩ (.response rsp callback)).idGen,clnt') ∧
      clnt'.allocated = (listEvent pb M.gives ⟨idGen,clnt.allocated,s⟩ (.response rsp callback)).allocated ∧
      Stands L clnt' [] cells' (listEvent pb M.gives ⟨idGen,clnt.allocated,s⟩ (.response rsp callback)).clnt := by
  have reads := congrArg (· ++ [rsp]) stands.reads
  cases rsp with
  | none =>
    exact ⟨_,cells,rfl,rfl,stands.linked,stands.there,stands.apart,stands.payloads,stands.enough,stands.writes,reads,
      stands.replies⟩
  | some rsp =>
    have stands₁ : Stands L {clnt with reads := clnt.reads ++ [some rsp]} [] cells
        {s with reads := s.reads ++ [some rsp]} :=
      ⟨stands.linked,stands.there,stands.apart,stands.payloads,stands.enough,stands.writes,reads,stands.replies⟩
    obtain ⟨value,ran,found⟩ := searchEnds lawful stands₁ rsp.id
    cases value with
    | none =>
      have absent := PbrpcCalls.unlinkNone (silentAnswers stands.payloads found)
      have unanswered : answered (some rsp) s = false := by simp [answered, absent]
      have same : PbrpcClient.handleResponse (some rsp) s = {s with reads := s.reads ++ [some rsp]} := by
        simp [PbrpcClient.handleResponse, absent]
      have listed : listEvent pb M.gives ⟨idGen,clnt.allocated,s⟩ (.response (some rsp) callback) =
          ⟨idGen,clnt.allocated,{s with reads := s.reads ++ [some rsp]}⟩ := by
        simp [listEvent, unanswered, same]
      rw [listed]
      refine ⟨_,cells,?_,?_,stands₁⟩
      · simp only [handleResponse, ran, bind, Except.bind]
      · rfl
    | some taken =>
      obtain ⟨h',a⟩ := taken
      obtain ⟨before,after,node,split,silent,payload,answers,deleted⟩ := found
      subst split
      obtain ⟨isAnswered,still,taken⟩ := entryTaken lawful stands rsp silent payload answers deleted
      have listed : listEvent pb M.gives ⟨idGen,clnt.allocated,s⟩ (.response (some rsp) callback) =
          callback.foldl (listCall pb M.gives) ⟨idGen,clnt.allocated,PbrpcClient.handleResponse (some rsp) s⟩ := by
        simp [listEvent, isAnswered]
      obtain ⟨clnt',cells',called,counted,stands'⟩ := callsStand lawful pb M callback idGen taken
      obtain ⟨h'',freed,stands''⟩ := entryFreed lawful stands'
      rw [listed]
      refine ⟨{clnt' with heap := h''},cells',?_,counted,stands''⟩
      simp only [handleResponse, ran, still, present, called, freed, bind, Except.bind]

include lawful in
theorem eventsStand (pb : Protobuf) (M : Calloc α ρ κ) (events : List (Event ρ κ)) (idGen : BitVec 64)
    {clnt : Client α ρ κ} {cells : List α} {s : Clnt ρ κ} (stands : Stands L clnt [] cells s) :
    ∃ clnt' cells', runEvents pb L M idGen clnt events =
        .ok ((listEvents pb M.gives ⟨idGen,clnt.allocated,s⟩ events).idGen,clnt') ∧
      Stands L clnt' [] cells' (listEvents pb M.gives ⟨idGen,clnt.allocated,s⟩ events).clnt := by
  induction events generalizing idGen clnt cells s with
  | nil => exact ⟨clnt,cells,rfl,stands⟩
  | cons event rest ih =>
    cases event with
    | call call =>
      obtain ⟨ret,clnt₁,cells₁,called,_,counted,stands₁⟩ := callStands lawful pb M idGen stands call
      obtain ⟨clnt',cells',ran,stands'⟩ := ih (listCall pb M.gives ⟨idGen,clnt.allocated,s⟩ call).idGen stands₁
      rw [counted] at ran stands'
      refine ⟨clnt',cells',?_,stands'⟩
      simp only [runEvents, called, Bind.bind, Except.bind]
      exact ran
    | response rsp callback =>
      obtain ⟨clnt₁,cells₁,handled,counted,stands₁⟩ := responseStands lawful pb M rsp callback idGen stands
      obtain ⟨clnt',cells',ran,stands'⟩ :=
        ih (listEvent pb M.gives ⟨idGen,clnt.allocated,s⟩ (.response rsp callback)).idGen stands₁
      rw [counted] at ran stands'
      refine ⟨clnt',cells',?_,stands'⟩
      simp only [runEvents, handled, Bind.bind, Except.bind]
      exact ran

include lawful in
theorem newStands (head : α) :
    ∃ clnt, newClient L head = .ok clnt ∧ clnt.allocated = 1 ∧ Stands L clnt [] [] (Clnt.new : Clnt ρ κ) := by
  have there : ∀ a, There (callocCell L (fun _ => none) head) a ↔ a = head := by
    intro a
    unfold callocCell
    rw [thereUpdate]
    simp [There]
  obtain ⟨h,made,linked,same⟩ := lawful.initListHead ((there head).mpr rfl)
  refine ⟨⟨h,head,1,[],[],[]⟩,?_,rfl,linked,?_,?_,rfl,Nat.zero_lt_one,rfl,rfl,rfl⟩
  · simp only [newClient, made, bind, Except.bind]
  · intro a
    rw [same.there, there]
    simp
  · intro a absent
    exact absurd absent List.not_mem_nil

include lawful in
/- Whatever the calls, the responses and the callbacks do, the code never follows a link to memory that is not
there, its walks end, and what it leaves is what the run on lists leaves, where calloc gives and refuses memory at
the same calls; and what is still there is the head and the entries of the list. -/
theorem ringRefinesList (pb : Protobuf) (M : Calloc α ρ κ) (head : α) (idGen : BitVec 64) (events : List (Event ρ κ)) :
    ∃ clnt clnt' cells, newClient L head = .ok clnt ∧
      runEvents pb L M idGen clnt events = .ok ((listEvents pb M.gives ⟨idGen,1,.new⟩ events).idGen,clnt') ∧
      Stands L clnt' [] cells (listEvents pb M.gives ⟨idGen,1,.new⟩ events).clnt := by
  obtain ⟨clnt,made,one,stands⟩ := newStands lawful head
  obtain ⟨clnt',cells,ran,stands'⟩ := eventsStand lawful pb M events idGen stands
  rw [one] at ran stands'
  exact ⟨clnt,clnt',cells,made,ran,stands'⟩

end Steps

def answeredTwice : List (Event Unit Nat) :=
  [.call ⟨true,true,cstr "ping",[8,1],(),5⟩,.call ⟨true,true,cstr "ping",[8,2],(),6⟩,
    .call ⟨true,true,cstr "ping",[8,3],(),7⟩,.response (some ⟨3,[8,3],none⟩) [⟨true,true,cstr "pong",[],(),8⟩],
    .response (some ⟨1,[8,1],none⟩) []]

theorem twiceRefined : ∃ clnt clnt' cells,
    newClient (listHeads 0) 0 = .ok clnt ∧
    runEvents PbrpcWire.wire (listHeads 0) (lowestFirst (fun n => n ≠ 2)) 0 clnt answeredTwice = .ok (4,clnt') ∧
    clnt'.replies = [⟨(),7,[8,3],0⟩,⟨(),5,[8,1],0⟩] ∧
    cells.map (payloadOf clnt'.heap) = [some ⟨4,(),8⟩] ∧ (∀ a, There clnt'.heap a ↔ a ∈ clnt'.head :: cells) := by
  obtain ⟨clnt,clnt',cells,made,ran,stands⟩ := ringRefinesList (listHeadsLawful 0) PbrpcWire.wire
    (lowestFirst (fun n => n ≠ 2)) 0 0 answeredTwice
  refine ⟨clnt,clnt',cells,made,ran,stands.replies,stands.payloads,?_⟩
  intro a
  rw [stands.there]
  simp

end VmpRl.OutstandingRing
