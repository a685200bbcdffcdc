import VmpRl.Base.Lifecycle
import VmpRl.Base.Transition
import VmpRl.PbrpcClient
import VmpRl.PbrpcWire

/-! The connection of a client: `pbrpc_clnt_new`, calls and responses, the event callback it
shares with the server side, and `pbrpc_clnt_destroy`. -/
namespace VmpRl.ClientHandle
open Octets CRuntime PbrpcMessages PbrpcXdr PbrpcClient Lifecycle Transition

inductive Obj where
  | null
  | base
  | socket
  | filter
  deriving DecidableEq, Repr

inductive Phase where
  | begin
  | failed
  | crashed
  | made
  deriving DecidableEq, Repr

structure Client (ρ κ : Type) where
  phase : Phase
  idGen : BitVec 64
  clnt : Clnt ρ κ
  bev : Obj
  trace : List (Op Obj)

variable {ρ κ : Type}

def Client.initial : Client ρ κ := ⟨.begin,0,.new,.null,[]⟩

def Client.log (c : Client ρ κ) (ops : List (Op Obj)) : Client ρ κ := {c with trace := c.trace ++ ops}

structure NewCalls where
  calloc : Bool
  eventBaseNew : Bool
  bufferevent : Bool
  connect : Int
  filter : Bool
  deriving DecidableEq, Repr

/- The filter closes the bufferevent under it (`BEV_OPT_CLOSE_ON_FREE`); both go through the base. -/
def buffereventFree : Obj → List (Op Obj)
  | .filter => [.use .base,.release .filter,.release .socket]
  | bev => [.use .base,.release bev]

/- What `bufferevent_filter_new` returns is not checked before `bufferevent_setcb`. -/
def pbrpcClntNew (calls : NewCalls) : Phase × List (Op Obj) :=
  if calls.calloc && calls.eventBaseNew then
    if calls.bufferevent then
      let ops : List (Op Obj) := [.acquire .base,.use .base,.acquire .socket,.use .socket]
      if calls.connect ≠ 0 then (.failed,ops ++ buffereventFree .socket ++ [Op.release Obj.base])
      else if calls.filter then (.made,ops ++ [Op.use Obj.socket,.acquire .filter,.use .filter,.use .filter])
      else (.crashed,ops ++ [Op.use Obj.socket])
    else (.failed,[.acquire .base,.use .base,.release .base])
  else (.failed,[])

def hangsUp (events : BitVec 16) : Bool := events &&& (0x10 ||| 0x20) != 0

def genericEventCb (bev : Obj) (events : BitVec 16) : List (Op Obj) :=
  if hangsUp events then buffereventFree bev else []

def pbrpcClntDestroy (bev : Obj) : List (Op Obj) :=
  [Op.use bev,.use .base,.release .base] ++ buffereventFree bev

inductive Event (ρ κ : Type) where
  | new (calls : NewCalls)
  | call (memory : CallMemory) (method : CString) (msg : Bytes) (replymsg : ρ) (args : κ)
  | response (msg : Bytes)
  | event (events : BitVec 16)
  | destroy

def Delivers (c : Client ρ κ) : Prop :=
  lifeOf .filter c.trace = .live ∧ lifeOf .base c.trace = .live

instance (c : Client ρ κ) : Decidable (Delivers c) := by unfold Delivers; infer_instance

/- Each write of a call goes to `clnt->bev`. The callbacks know the filter only, not the client. -/
def step (pb : Protobuf) (c : Client ρ κ) : Event ρ κ → Option (Client ρ κ)
  | .new calls => if c.phase = .begin then
      let (phase, ops) := pbrpcClntNew calls
      some ({c with phase := phase, bev := if phase = Phase.made then .filter else .null}.log ops)
    else none
  | .call memory method msg replymsg args => if c.phase = .made then
      let (_, idGen, clnt) := pbrpcClntCall pb memory c.idGen c.clnt method msg replymsg args
      let written := clnt.writes.drop c.clnt.writes.length
      some ({c with idGen := idGen, clnt := clnt}.log (written.map (fun _ => .use c.bev)))
    else none
  | .response msg => if Delivers c then
      match processResponse pb msg c.clnt with
      | .ok (_, clnt) => some ({c with clnt := clnt}.log [.use .filter])
      | .error _ => none
    else none
  | .event events => if Delivers c then some (c.log (genericEventCb .filter events)) else none
  | .destroy => if c.phase = .made then
      some ({c with bev := .null}.log (pbrpcClntDestroy c.bev))
    else none

def system (pb : Protobuf) : System (Client ρ κ) (Event ρ κ) := ⟨(· = .initial),step pb⟩

structure Orderly (c : Client ρ κ) : Prop where
  handle : c.bev = .null ∨ lifeOf c.bev c.trace = .live
  trace : Disciplined c.trace

def Unbroken (_ : Client ρ κ) : Event ρ κ → Prop
  | .event events => hangsUp events = false
  | .destroy => False
  | _ => True

structure Held (c : Client ρ κ) : Prop where
  trace : Disciplined c.trace
  fresh : c.phase = .begin → c.trace = []
  empty : c.phase ≠ .made → c.bev = .null ∧ lifeOf .filter c.trace = .absent
  full : c.phase = .made → c.bev = .filter ∧ lifeOf .filter c.trace = .live ∧ lifeOf .base c.trace = .live ∧
    lifeOf .socket c.trace = .live

theorem Held.orderly {c : Client ρ κ} (k : Held c) : Orderly c := by
  refine ⟨?_,k.trace⟩
  by_cases made : c.phase = .made
  · obtain ⟨bev,live,_⟩ := k.full made
    rw [bev]
    exact Or.inr live
  · exact Or.inl (k.empty made).1

theorem newFits (calls : NewCalls) : Disciplined (pbrpcClntNew calls).2 ∧
    (pbrpcClntNew calls).1 ≠ .begin ∧
    ((pbrpcClntNew calls).1 ≠ .made → lifeOf .filter (pbrpcClntNew calls).2 = .absent) ∧
    ((pbrpcClntNew calls).1 = .made → lifeOf .filter (pbrpcClntNew calls).2 = .live ∧
      lifeOf .base (pbrpcClntNew calls).2 = .live ∧ lifeOf .socket (pbrpcClntNew calls).2 = .live) := by
  unfold pbrpcClntNew
  split
  · split
    · dsimp only
      split
      · decide
      · split
        · decide
        · decide
    · decide
  · decide

theorem hangUpInv {pb : Protobuf} {c d : Client ρ κ} {events : BitVec 16}
    (h : step pb c (.event events) = some d) : Delivers c ∧ d = c.log (genericEventCb .filter events) :=
  guardTaken h

theorem destroyInv {pb : Protobuf} {c d : Client ρ κ} (h : step pb c .destroy = some d) :
    c.phase = .made ∧ d = {c with bev := .null}.log (pbrpcClntDestroy c.bev) :=
  guardTaken h

theorem newInv {pb : Protobuf} {c d : Client ρ κ} {calls : NewCalls} (h : step pb c (.new calls) = some d) :
    c.phase = .begin ∧ d.phase = (pbrpcClntNew calls).1 ∧
      d.bev = (if (pbrpcClntNew calls).1 = .made then .filter else .null) ∧
      d.trace = c.trace ++ (pbrpcClntNew calls).2 := by
  obtain ⟨here,rfl⟩ := guardTaken h
  exact ⟨here,rfl,rfl,rfl⟩

theorem callInv {pb : Protobuf} {c d : Client ρ κ} {memory : CallMemory} {method : CString} {msg : Bytes}
    {replymsg : ρ} {args : κ} (h : step pb c (.call memory method msg replymsg args) = some d) :
    c.phase = .made ∧ d.phase = c.phase ∧ d.bev = c.bev ∧
      ∃ written : List Write, d.trace = c.trace ++ written.map (fun _ => .use c.bev) := by
  obtain ⟨here,rfl⟩ := guardTaken h
  exact ⟨here,rfl,rfl,_,rfl⟩

theorem responseInv {pb : Protobuf} {c d : Client ρ κ} {msg : Bytes} (h : step pb c (.response msg) = some d) :
    Delivers c ∧ d.phase = c.phase ∧ d.bev = c.bev ∧ d.trace = c.trace ++ [.use .filter] := by
  simp only [step] at h
  split at h
  · rename_i here
    split at h
    · rw [← Option.some.inj h]
      exact ⟨here,rfl,rfl,rfl⟩
    · cases h
  · cases h

theorem Held.used {c d : Client ρ κ} (k : Held c) {o : Obj} (live : lifeOf o c.trace = .live)
    (phase : d.phase = c.phase) (bev : d.bev = c.bev) {α : Type} (l : List α)
    (trace : d.trace = c.trace ++ l.map (fun _ => .use o)) (begun : c.phase ≠ .begin) : Held d := by
  have same : ∀ p, lifeOf p d.trace = lifeOf p c.trace := by
    intro p
    rw [trace]
    apply usesKept
    intro op member
    obtain ⟨_,_,rfl⟩ := List.mem_map.mp member
    exact ⟨o,rfl⟩
  refine ⟨?_,?_,?_,?_⟩
  · rw [trace]
    exact (disciplinedAppend _ _).mpr ⟨k.trace,usesFit (fun p => lifeOf p c.trace) live l⟩
  · intro begin
    exact absurd (phase.symm.trans begin) begun
  · rw [phase, bev, same]
    exact k.empty
  · rw [phase, bev, same, same, same]
    exact k.full

theorem Held.delivered {c : Client ρ κ} (k : Held c) (delivers : Delivers c) : c.phase = .made := by
  by_contra unmade
  have absent := (k.empty unmade).2
  rw [delivers.1] at absent
  cases absent

theorem heldStep {pb : Protobuf} {c d : Client ρ κ} {e : Event ρ κ} (k : Held c) (h : step pb c e = some d)
    (unbroken : Unbroken c e) : Held d := by
  cases e with
  | new calls =>
    obtain ⟨begin,phase,bev,trace⟩ := newInv h
    obtain ⟨fits,begun,empty,full⟩ := newFits calls
    rw [k.fresh begin, List.nil_append] at trace
    refine ⟨by rw [trace]; exact fits,fun there => absurd (phase.symm.trans there) begun,?_,?_⟩
    · intro unmade
      rw [phase] at unmade
      rw [bev, if_neg unmade, trace]
      exact ⟨rfl,empty unmade⟩
    · intro made
      rw [phase] at made
      rw [bev, if_pos made, trace]
      exact ⟨rfl,full made⟩
  | call memory method msg replymsg args =>
    obtain ⟨made,phase,bev,written,trace⟩ := callInv h
    obtain ⟨filter,live,_⟩ := k.full made
    exact k.used (by rw [filter]; exact live) phase bev written trace (by simp [made])
  | response msg =>
    obtain ⟨delivers,phase,bev,trace⟩ := responseInv h
    exact k.used delivers.1 phase bev [()] trace (by simp [k.delivered delivers])
  | event events =>
    obtain ⟨delivers,rfl⟩ := hangUpInv h
    have quiet : hangsUp events = false := unbroken
    refine k.used delivers.1 rfl rfl ([] : List Unit) ?_ (by simp [k.delivered delivers])
    simp [genericEventCb, quiet, Client.log]
  | destroy => exact absurd unbroken id

theorem breakShows {pb : Protobuf} {c d : Client ρ κ} {e : Event ρ κ} (k : Held c) (h : step pb c e = some d)
    (orderly : Orderly d) : Unbroken c e := by
  cases e with
  | event events =>
    obtain ⟨delivers,rfl⟩ := hangUpInv h
    cases hung : hangsUp events with
    | false => exact hung
    | true =>
      obtain ⟨bev,_⟩ := k.full (k.delivered delivers)
      have gone : lifeOf .filter (c.trace ++ genericEventCb .filter events) = .gone := by
        simp [genericEventCb, hung, buffereventFree, lifeOfAppend, Life.after]
      rcases orderly.handle with null | live
      · rw [show c.bev = .null from null] at bev
        cases bev
      · have there : lifeOf c.bev (c.trace ++ genericEventCb .filter events) = .live := live
        rw [bev, gone] at there
        cases there
  | destroy =>
    obtain ⟨made,rfl⟩ := destroyInv h
    obtain ⟨filter,_⟩ := k.full made
    have fits := ((disciplinedAppend _ _).mp orderly.trace).2
    rw [filter] at fits
    obtain ⟨_,_,_,gone,_⟩ := fits
    cases gone
  | new | call | response => trivial

theorem initialHeld : Held (.initial : Client ρ κ) :=
  ⟨trivial,fun _ => rfl,fun _ => ⟨rfl,rfl⟩,fun made => by cases made⟩

/- The connection of a client is treated as it should be all along a run exactly when the run has
no EOF or error on the connection and no `pbrpc_clnt_destroy`. -/
theorem connectionKept (pb : Protobuf) {events : List (Event ρ κ)} {c : Client ρ κ}
    (ran : (system pb).run .initial events = some c) :
    (system pb).AllStates Orderly .initial events ↔ (system pb).AllSteps Unbroken .initial events :=
  (system pb).exactCondition (fun _ k => k.orderly) (fun _ _ _ k h unbroken => heldStep k h unbroken)
    (fun _ _ _ k h orderly => breakShows k h orderly) initialHeld ran

def newSucceeds : NewCalls := ⟨true,true,true,0,true⟩
def allMemory : CallMemory := ⟨true,true,true⟩

def answered : List (Event Unit Unit) := [.new newSucceeds,.event 0x80,.call allMemory (cstr "ping") [] () (),
  .response (packedBuffer PbrpcWire.wire.response ⟨1,[],none⟩)]

theorem answeredKept : (∃ c, (system PbrpcWire.wire).run .initial answered = some c ∧
      c.clnt.outstanding = [] ∧ c.clnt.replies.length = 1) ∧
    (system PbrpcWire.wire).AllStates Orderly .initial answered := by
  have runs : ∃ c, (system PbrpcWire.wire).run .initial answered = some c ∧
      c.clnt.outstanding = [] ∧ c.clnt.replies.length = 1 := ⟨_,rfl,rfl,rfl⟩
  obtain ⟨c,ran,served⟩ := runs
  refine ⟨⟨c,ran,served⟩,(connectionKept PbrpcWire.wire ran).mpr ?_⟩
  refine ((system PbrpcWire.wire).allStepsCons rfl).mpr ⟨trivial,?_⟩
  refine ((system PbrpcWire.wire).allStepsCons rfl).mpr ⟨rfl,?_⟩
  refine ((system PbrpcWire.wire).allStepsCons rfl).mpr ⟨trivial,?_⟩
  exact ((system PbrpcWire.wire).allStepsCons rfl).mpr ⟨trivial,(system PbrpcWire.wire).allStepsNil _ _⟩

/- After an EOF a call writes to the freed filter; after an EOF the destroy frees it again; the
destroy of a connection that is up frees the base before the filter. -/
theorem brokenConnections :
    (∃ c, (system PbrpcWire.wire).run (.initial : Client Unit Unit)
        [.new newSucceeds,.event 0x11,.call allMemory (cstr "ping") [] () ()] = some c ∧ c.bev = .filter ∧
      c.trace.drop 9 = [.release .filter,.release .socket,.use .filter] ∧ ¬ Orderly c) ∧
    (∃ c, (system PbrpcWire.wire).run (.initial : Client Unit Unit) [.new newSucceeds,.event 0x11,.destroy] =
      some c ∧ c.trace.count (.release .filter) = 2 ∧ ¬ Orderly c) ∧
    ∃ c, (system PbrpcWire.wire).run (.initial : Client Unit Unit) [.new newSucceeds,.destroy] = some c ∧
      c.trace.drop 10 = [.release .base,.use .base,.release .filter,.release .socket] ∧ ¬ Orderly c := by
  refine ⟨⟨_,rfl,rfl,rfl,?_⟩,⟨_,rfl,by decide,?_⟩,⟨_,rfl,rfl,?_⟩⟩
  · exact fun orderly => absurd orderly.trace (by decide)
  · exact fun orderly => absurd orderly.trace (by decide)
  · exact fun orderly => absurd orderly.trace (by decide)

end VmpRl.ClientHandle
