import VmpRl.Exchanges
import VmpRl.Lanes
import VmpRl.ServiceClients

/-! A service with many connections at once: `accept_conn_cb` gives each its own filtered bufferevent, all of them
share `&svc->xdrs` and with it the callouts and whatever the executors keep. The event loop takes the arrivals one
by one, in any order of the connections. -/
namespace VmpRl.Connections
open Octets CRuntime PbrpcMessages PbrpcXdr PbrpcService Exchanges Lanes PbrpcWire Services ServiceClients

variable {κ δ : Type} {α : δ → Type} {σ : Type}

structure Peer where
  bufs : Evbuffers
  reads : List (Option PbcRpcRequest)
  writes : List Write

def accepted : Peer := ⟨⟨[],[]⟩,[],[]⟩

structure Server (κ σ : Type) where
  world : σ
  peers : κ → Peer

def Server.link (s : Server κ σ) (i : κ) : Link (Conn σ) :=
  ⟨(s.peers i).bufs,⟨s.world,(s.peers i).reads,(s.peers i).writes⟩⟩

structure Arrival (κ : Type) where
  peer : κ
  chunk : Bytes
  calloc : Bool

variable [DecidableEq κ]

def arrive (pb : Protobuf) (P : Platform δ α σ) (head : List (Callout δ α)) (s : Server κ σ) (arrival : Arrival κ) :
    Run (Server κ σ) := do
  let l ← onData arrival.calloc (processRequest pb P head) (s.link arrival.peer) arrival.chunk
  .ok ⟨l.state.world,Function.update s.peers arrival.peer ⟨l.bufs,l.state.reads,l.state.writes⟩⟩

def arrivedAt (i : κ) (arrivals : List (Arrival κ)) : Bytes :=
  (arrivals.map (fun arrival => if arrival.peer = i then arrival.chunk else [])).flatten

def own (i : κ) (history : List (κ × PbcRpcRequest)) : List PbcRpcRequest :=
  (history.filter (fun a => a.1 = i)).map Prod.snd

def ownAnswers (i : κ) (answers : List ((κ × PbcRpcRequest) × PbcRpcResponse)) : List PbcRpcResponse :=
  (answers.filter (fun e => e.1.1 = i)).map Prod.snd

/- Of `crossed` bytes of its peer's requests a connection has read those in `done`, holds what is behind them, and has
written `answered`. -/
structure Progress (pb : Protobuf) (requests : List PbcRpcRequest) (crossed : Nat) (p : Peer)
    (done : List PbcRpcRequest) (answered : List PbcRpcResponse) : Prop where
  lane : ∃ kept todo, Lane pb.request.pack requests crossed p.bufs done kept todo
  reads : p.reads = done.map some
  written : writtenBytes p.writes = frames (answered.map pb.response.pack)

section Histories
variable {i j : κ}

theorem ownAppend (left right : List (κ × PbcRpcRequest)) : own i (left ++ right) = own i left ++ own i right := by
  simp [own]

theorem ownAnswersAppend (left right : List ((κ × PbcRpcRequest) × PbcRpcResponse)) :
    ownAnswers i (left ++ right) = ownAnswers i left ++ ownAnswers i right := by
  simp [ownAnswers]

theorem ownSelf (now : List PbcRpcRequest) : own i (now.map (fun req => (i,req))) = now := by
  unfold own
  rw [List.filter_eq_self.mpr (by simp), List.map_map]
  exact List.map_id now

theorem ownOther (other : j ≠ i) (now : List PbcRpcRequest) : own j (now.map (fun req => (i,req))) = [] := by
  unfold own
  rw [List.filter_eq_nil_iff.mpr (by simpa using fun _ _ => Ne.symm other)]
  rfl

omit [DecidableEq κ] in
theorem answersOf {now : List PbcRpcRequest} {more : List ((κ × PbcRpcRequest) × PbcRpcResponse)}
    (order : (more.map Prod.fst).Sublist (now.map (fun req => (i,req)))) : ∀ e ∈ more, e.1.1 = i := by
  intro e member
  obtain ⟨req,_,same⟩ := List.mem_map.mp (order.subset (List.mem_map_of_mem member))
  exact (congrArg Prod.fst same).symm

theorem ownAnswersSelf {more : List ((κ × PbcRpcRequest) × PbcRpcResponse)} (all : ∀ e ∈ more, e.1.1 = i) :
    ownAnswers i more = more.map Prod.snd := by
  unfold ownAnswers
  rw [List.filter_eq_self.mpr (fun e member => decide_eq_true (all e member))]

theorem ownAnswersOther {more : List ((κ × PbcRpcRequest) × PbcRpcResponse)} (all : ∀ e ∈ more, e.1.1 = i)
    (other : j ≠ i) : ownAnswers j more = [] := by
  unfold ownAnswers
  rw [List.filter_eq_nil_iff.mpr]
  · rfl
  · intro e member same
    exact other ((of_decide_eq_true same).symm.trans (all e member))

end Histories

/- Where the service stands: what it did is the history of its requests put to the callouts one by one, and each
connection has its own part of it. -/
structure Serving (pb : Protobuf) (P : Platform δ α σ) (head : List (Callout δ α)) (requests : κ → List PbcRpcRequest)
    (w : σ) (past : κ → Bytes) (s : Server κ σ) (history : List (κ × PbcRpcRequest))
    (answers : List ((κ × PbcRpcRequest) × PbcRpcResponse)) : Prop where
  ran : exchanges P head Prod.snd history w = .ok (answers,s.world)
  order : (answers.map Prod.fst).Sublist history
  numbered : ∀ e ∈ answers, e.2.id = replyId e.1.2
  progress : ∀ i, Progress pb (requests i) (past i).length (s.peers i) (own i history) (ownAnswers i answers)

section Arrivals
variable {pb : Protobuf} (law : pb.Lawful) {P : Platform δ α σ} {head : List (Callout δ α)}

theorem servingFresh (requests : κ → List PbcRpcRequest) (w : σ) :
    Serving pb P head requests w (fun _ => []) ⟨w,fun _ => accepted⟩ [] [] :=
  ⟨rfl,List.Sublist.refl _,by simp,
    fun i => ⟨⟨[],requests i,laneGrows (laneFresh pb.request.pack) (requests i)⟩,rfl,rfl⟩⟩

include law in
theorem arriveServes {requests : List PbcRpcRequest} (answerable : ∀ req ∈ requests, Answerable pb P head req)
    {s : Server κ σ} {arrival : Arrival κ} {past more : Bytes} {done : List PbcRpcRequest} {answered : List PbcRpcResponse}
    (stream : past ++ (arrival.chunk ++ more) = frames (requests.map pb.request.pack))
    (progress : Progress pb requests past.length (s.peers arrival.peer) done answered) :
    ∃ t now new, arrive pb P head s arrival = .ok t ∧ (∀ j, j ≠ arrival.peer → t.peers j = s.peers j) ∧
      exchanges P head Prod.snd (now.map (fun req => (arrival.peer,req))) s.world = .ok (new,t.world) ∧
      (new.map Prod.fst).Sublist (now.map (fun req => (arrival.peer,req))) ∧ (∀ e ∈ new, e.2.id = replyId e.1.2) ∧
      Progress pb requests (past ++ arrival.chunk).length (t.peers arrival.peer) (done ++ now)
        (answered ++ new.map Prod.snd) ∧
      (arrival.calloc = true → (s.peers arrival.peer).bufs.dst = [] → (t.peers arrival.peer).bufs.dst = []) := by
  obtain ⟨kept,todo,lane⟩ := progress.lane
  have small : ∀ req ∈ requests, Small (pb.request.pack req) := requestsSmall law id answerable
  have piece : ((frames (requests.map pb.request.pack)).drop past.length).take arrival.chunk.length = arrival.chunk := by
    rw [← stream, List.drop_left, List.take_left]
  obtain ⟨next,now,later,left,arrived,onward,read⟩ := laneArrives (processTakesFrame pb P head) small lane
    arrival.chunk.length arrival.calloc ⟨s.world,(s.peers arrival.peer).reads,(s.peers arrival.peer).writes⟩
  rw [piece] at arrived onward
  have mine : ∀ a ∈ now.map (fun req => (arrival.peer,req)), Answerable pb P head a.2 := by
    intro a member
    obtain ⟨req,inside,rfl⟩ := List.mem_map.mp member
    refine answerable req ?_
    rw [onward.order]
    simp [inside]
  obtain ⟨new,out,ran,folded,reads,written,_,numbered,order⟩ := serveExchanges law mine
    ⟨s.world,(s.peers arrival.peer).reads,(s.peers arrival.peer).writes⟩
  have bodies : (now.map (fun req => (arrival.peer,req))).map (requestBody pb Prod.snd) = now.map pb.request.pack :=
    List.map_map
  rw [bodies] at folded
  rw [folded] at arrived
  refine ⟨⟨out.world,Function.update s.peers arrival.peer ⟨next,out.reads,out.writes⟩⟩,now,new,?_,?_,ran,order,numbered,
    ?_,?_⟩
  · simp only [arrive, Server.link, arrived, bind, Except.bind, Except.map]
  · intro j other
    exact Function.update_of_ne other _ _
  · dsimp only
    rw [Function.update_self]
    refine ⟨⟨later,left,?_⟩,?_,?_⟩
    · rw [List.length_append]
      exact onward
    · show out.reads = _
      rw [reads, progress.reads, List.map_append, List.map_map]
      rfl
    · show writtenBytes out.writes = _
      rw [written, progress.written, List.map_append, List.map_map]
      exact (Framing.framesAppend lengthPrefix _ _).symm
  · dsimp only
    rw [Function.update_self]
    exact read

variable {requests : κ → List PbcRpcRequest} {w : σ}

include law in
theorem servingStep (answerable : ∀ i, ∀ req ∈ requests i, Answerable pb P head req) {past : κ → Bytes}
    {s : Server κ σ} {history : List (κ × PbcRpcRequest)} {answers : List ((κ × PbcRpcRequest) × PbcRpcResponse)}
    (serving : Serving pb P head requests w past s history answers) (arrival : Arrival κ) (more : κ → Bytes)
    (streams : ∀ i, past i ++ ((if arrival.peer = i then arrival.chunk else []) ++ more i) =
      frames ((requests i).map pb.request.pack)) :
    ∃ t now new, arrive pb P head s arrival = .ok t ∧
      Serving pb P head requests w (fun i => past i ++ if arrival.peer = i then arrival.chunk else []) t (history ++ now)
        (answers ++ new) ∧
      ∀ i, (arrival.peer = i → arrival.calloc = true) → (s.peers i).bufs.dst = [] → (t.peers i).bufs.dst = [] := by
  have stream := streams arrival.peer
  rw [if_pos rfl] at stream
  obtain ⟨t,now,new,arrived,others,ran,order,numbered,progress,read⟩ :=
    arriveServes law (answerable arrival.peer) stream (serving.progress arrival.peer)
  have mine := answersOf order
  refine ⟨t,now.map (fun req => (arrival.peer,req)),new,arrived,⟨exchangesAppend serving.ran ran,?_,?_,?_⟩,?_⟩
  · rw [List.map_append]
    exact serving.order.append order
  · intro e member
    rcases List.mem_append.mp member with old | fresh
    · exact serving.numbered e old
    · exact numbered e fresh
  · intro i
    rw [ownAppend, ownAnswersAppend]
    by_cases same : arrival.peer = i
    · subst same
      rw [if_pos rfl, ownSelf, ownAnswersSelf mine]
      exact progress
    · have other : i ≠ arrival.peer := fun equal => same equal.symm
      rw [if_neg same, List.append_nil, ownOther other, ownAnswersOther mine other, others i other, List.append_nil,
        List.append_nil]
      exact serving.progress i
  · intro i memory empty
    by_cases same : arrival.peer = i
    · subst same
      exact read (memory rfl) empty
    · rw [others i (fun equal => same equal.symm)]
      exact empty

include law in
theorem servingAll (answerable : ∀ i, ∀ req ∈ requests i, Answerable pb P head req) (arrivals : List (Arrival κ))
    {past more : κ → Bytes} {s : Server κ σ} {history : List (κ × PbcRpcRequest)}
    {answers : List ((κ × PbcRpcRequest) × PbcRpcResponse)}
    (serving : Serving pb P head requests w past s history answers)
    (streams : ∀ i, past i ++ (arrivedAt i arrivals ++ more i) = frames ((requests i).map pb.request.pack)) :
    ∃ t history answers, arrivals.foldlM (arrive pb P head) s = .ok t ∧
      Serving pb P head requests w (fun i => past i ++ arrivedAt i arrivals) t history answers ∧
      ∀ i, (∀ arrival ∈ arrivals, arrival.peer = i → arrival.calloc = true) → (s.peers i).bufs.dst = [] →
        (t.peers i).bufs.dst = [] := by
  induction arrivals generalizing past s history answers with
  | nil => exact ⟨s,history,answers,rfl,by simpa [arrivedAt] using serving,fun _ _ empty => empty⟩
  | cons arrival rest ih =>
    have cut (i : κ) : arrivedAt i (arrival :: rest) = (if arrival.peer = i then arrival.chunk else []) ++
      arrivedAt i rest := rfl
    obtain ⟨t,now,new,arrived,served,read⟩ := servingStep law answerable serving arrival
      (fun i => arrivedAt i rest ++ more i) (fun i => by
        rw [← List.append_assoc _ (arrivedAt i rest), ← cut]
        exact streams i)
    obtain ⟨u,whole,answered,ran,last,empty⟩ := ih served (fun i => by
      rw [List.append_assoc, ← List.append_assoc _ (arrivedAt i rest), ← cut]
      exact streams i)
    refine ⟨u,whole,answered,?_,?_,?_⟩
    · simp only [List.foldlM_cons, arrived, bind, Except.bind]
      exact ran
    · simp only [cut, ← List.append_assoc]
      exact last
    · intro i memory clear
      exact empty i (fun a member => memory a (List.mem_cons_of_mem _ member))
        (read i (memory arrival List.mem_cons_self) clear)

include law in
/- The service is one that takes the requests of all its peers one by one: in whatever order and pieces the streams come
in and whichever allocations fail, there is a history of requests put to the callouts in turn, of which every connection
has read its own part and written the responses to it. -/
theorem connectionsAnswered (requests : κ → List PbcRpcRequest)
    (answerable : ∀ i, ∀ req ∈ requests i, Answerable pb P head req) (arrivals : List (Arrival κ)) (more : κ → Bytes)
    (streams : ∀ i, arrivedAt i arrivals ++ more i = frames ((requests i).map pb.request.pack)) (w : σ) :
    ∃ s history answers, arrivals.foldlM (arrive pb P head) ⟨w,fun _ => accepted⟩ = .ok s ∧
      exchanges P head Prod.snd history w = .ok (answers,s.world) ∧
      (answers.map Prod.fst).Sublist history ∧ (∀ e ∈ answers, e.2.id = replyId e.1.2) ∧
      ((∀ w, (P.calloc w).1 = true) → answers.map Prod.fst = history) ∧
      ∀ i, Progress pb (requests i) (arrivedAt i arrivals).length (s.peers i) (own i history) (ownAnswers i answers) ∧
        ((∀ arrival ∈ arrivals, arrival.peer = i → arrival.calloc = true) → (s.peers i).bufs.dst = []) ∧
        (more i = [] → (s.peers i).bufs.dst = [] → own i history = requests i ∧ (s.peers i).bufs = ⟨[],[]⟩) := by
  obtain ⟨s,history,answers,ran,serving,read⟩ := servingAll law answerable arrivals (servingFresh requests w) streams
  refine ⟨s,history,answers,ran,serving.ran,serving.order,serving.numbered,?_,?_⟩
  · intro memory
    exact exchangesAll memory serving.ran
  · intro i
    refine ⟨serving.progress i,fun memory => read i memory rfl,?_⟩
    intro ended empty
    obtain ⟨kept,todo,lane⟩ := (serving.progress i).lane
    have whole := streams i
    rw [ended, List.append_nil] at whole
    obtain ⟨all,rest⟩ := laneWhole (requestsSmall law id (answerable i)) lane
      (congrArg List.length whole) empty
    exact ⟨all.symm,congr (congrArg Evbuffers.mk rest) empty⟩

end Arrivals

def demoRequest : PbcRpcRequest := Stub.demo.request wire demoInfo 7
def vmonRequest : PbcRpcRequest := Stub.vmon.request wire demoInfo 8
def bareRequest : PbcRpcRequest := ⟨9,Stub.demo.method,none⟩
def asked (i : Bool) : List PbcRpcRequest := if i then [demoRequest] else [vmonRequest,bareRequest]

def woven : List (Arrival Bool) :=
  [⟨true,(frames [wire.request.pack demoRequest]).take 3,true⟩,⟨false,frames [wire.request.pack vmonRequest],false⟩,
    ⟨false,frames [wire.request.pack bareRequest],true⟩,⟨true,(frames [wire.request.pack demoRequest]).drop 3,true⟩]

theorem askedAnswerable (i : Bool) : ∀ req ∈ asked i, Answerable wire (platform wire alwaysMemory) demoRegistry req := by
  intro req member
  have one : req = demoRequest ∨ req = vmonRequest ∨ req = bareRequest := by
    cases i <;> simp [asked] at member <;> tauto
  rcases one with rfl | rfl | rfl
  · refine ⟨fun w => ⟨_,rfl⟩,by decide +kernel,?_⟩
    intro w r invoked
    cases Except.ok.inj invoked
    show wire.response.getPackedSize ⟨7,wire.demoRsp.pack ⟨5,3,4096⟩,none⟩ + 8 < 2 ^ 31
    decide +kernel
  · refine ⟨fun w => ⟨_,rfl⟩,by decide +kernel,?_⟩
    intro w r invoked
    cases Except.ok.inj invoked
    show wire.response.getPackedSize ⟨8,[],none⟩ + 8 < 2 ^ 31
    decide +kernel
  · refine ⟨fun w => ⟨_,rfl⟩,by decide +kernel,?_⟩
    intro w r invoked
    cases Except.ok.inj invoked
    show wire.response.getPackedSize .init + 8 < 2 ^ 31
    decide +kernel

theorem wovenAnswered : ∃ s history answers,
    woven.foldlM (arrive wire (platform wire alwaysMemory) demoRegistry) ⟨⟨(),[]⟩,fun _ => accepted⟩ = .ok s ∧
    exchanges (platform wire alwaysMemory) demoRegistry Prod.snd history ⟨(),[]⟩ = .ok (answers,s.world) ∧
    answers.map Prod.fst = history ∧
    ∀ i, own i history = asked i ∧ (s.peers i).bufs = ⟨[],[]⟩ ∧
      writtenBytes (s.peers i).writes = frames ((ownAnswers i answers).map wire.response.pack) := by
  have streams : ∀ i, arrivedAt i woven ++ [] = frames ((asked i).map wire.request.pack) := by decide +kernel
  obtain ⟨s,history,answers,ran,exchanged,_,_,all,each⟩ := connectionsAnswered wireLawful asked askedAnswerable woven
    (fun _ => []) streams ⟨(),[]⟩
  have empty : (woven.foldlM (arrive wire (platform wire alwaysMemory) demoRegistry)
      ⟨⟨(),[]⟩,fun _ => accepted⟩).toOption.map (fun s => ((s.peers true).bufs.dst,(s.peers false).bufs.dst)) =
      some ([],[]) := by decide +kernel
  rw [ran] at empty
  have none := Prod.mk.inj (Option.some.inj empty)
  have read : ∀ i, (s.peers i).bufs.dst = [] := fun i => by
    cases i with
    | true => exact none.1
    | false => exact none.2
  refine ⟨s,history,answers,ran,exchanged,all (fun _ => rfl),?_⟩
  intro i
  obtain ⟨progress,_,whole⟩ := each i
  obtain ⟨done,empty⟩ := whole rfl (read i)
  exact ⟨done,empty,progress.written⟩

end VmpRl.Connections
