import Mathlib.Data.List.Nodup
import VmpRl.Callouts
import VmpRl.PbrpcAnswers

/-! The services of the daemon: their executors, their registration, and what a request
meets in a registry that the registration functions built. -/
namespace VmpRl.Services
open Octets CRuntime PbrpcMessages PbrpcXdr PbrpcService PbrpcAnswers PbrpcWire
open Callouts (findNone findSome)

inductive Service where
  | demo
  | registry
  | vmon
  | nodeState
  deriving DecidableEq, Repr

def Service.scProg : Service → BitVec 32
  | .demo => 200001
  | .registry => 200002
  | .vmon => 200003
  | .nodeState => 200004

def Service.scVers : Service → BitVec 32 := fun _ => 1

def Service.scName : Service → CString
  | .demo => cstr "Loader.demo"
  | .registry => cstr "Loader.registry"
  | .vmon => cstr "Loader.vmon"
  | .nodeState => cstr "Loader.node_state"

structure ServiceDemoReq where
  id : BitVec 32
  deriving DecidableEq

structure ServiceDemoRsp where
  cnt : BitVec 32
  mem : BitVec 64
  deriving DecidableEq

structure ServiceVmonReq where
  id : BitVec 32
  deriving DecidableEq

structure ServiceVmonRsp where
  num : BitVec 32
  deriving DecidableEq

structure ServiceNodeStateReq where
  id : BitVec 32
  deriving DecidableEq

structure ServiceNodeStateRsp where
  id : BitVec 32
  index : BitVec 32
  name : Option CString
  count : BitVec 32
  uplink : BitVec 64
  downlink : BitVec 64
  memory : BitVec 64
  cpu : BitVec 64
  deriving DecidableEq

structure RpcServiceRegistryReq where
  id : BitVec 32
  name : CString
  system : CString
  location : CString
  processor : CString
  bandwidth : BitVec 64
  memory : BitVec 64
  ip : CString
  port : BitVec 16
  deriving DecidableEq

structure RpcServiceRegistryRsp where
  id : BitVec 32
  name : CString
  index : BitVec 32
  num : BitVec 32
  deriving DecidableEq

structure SvcHandler (Q R τ : Type) where
  pfnCallback : Q → τ → Int × R × τ

abbrev Handler (τ : Type) : Service → Type
  | .demo => SvcHandler ServiceDemoReq ServiceDemoRsp τ
  | .registry => SvcHandler RpcServiceRegistryReq RpcServiceRegistryRsp τ
  | .vmon => SvcHandler ServiceVmonReq ServiceVmonRsp τ
  | .nodeState => SvcHandler ServiceNodeStateReq ServiceNodeStateRsp τ

structure Daemon (τ : Type) where
  state : τ
  callbacks : List Service

variable {τ : Type}

/- The executors share their body: unpack, run the handler, copy the fields, pack into a buffer
from calloc. None of them looks at the status of the handler or at a NULL from unpack. -/
def serviceExec {Q R SQ SR : Type} (service : Service) (req : Codec Q) (svcReq : Q → SQ)
    (rsp : Codec R) (pbcRsp : Q → SR → R) (calloc : τ → Bool × τ) (h : SvcHandler SQ SR τ)
    (params : Bytes) (w : Daemon τ) : Run (Int × Bytes × Daemon τ) :=
  match req.unpack params with
  | none => .error .nullDeref
  | some pbcReq =>
    let (_, svcRsp, state) := h.pfnCallback (svcReq pbcReq) w.state
    let (mem, state) := calloc state
    let w := ⟨state,w.callbacks ++ [service]⟩
    .ok (if mem then (0,rsp.pack (pbcRsp pbcReq svcRsp),w) else (-1,[],w))

def demoExec (pb : Protobuf) : (τ → Bool × τ) → Handler τ .demo → Bytes → Daemon τ →
    Run (Int × Bytes × Daemon τ) :=
  serviceExec .demo pb.demoReq (fun req => ⟨req.id⟩) pb.demoRsp
    (fun req rsp => ⟨req.id,rsp.cnt,rsp.mem⟩)

def vmonExec (pb : Protobuf) : (τ → Bool × τ) → Handler τ .vmon → Bytes → Daemon τ →
    Run (Int × Bytes × Daemon τ) :=
  serviceExec .vmon pb.vmonReq (fun req => ⟨req.id⟩) pb.vmonRsp (fun req rsp => ⟨req.id,rsp.num⟩)

/- A NULL name is packed like an empty one. -/
def nodeStateExec (pb : Protobuf) : (τ → Bool × τ) → Handler τ .nodeState → Bytes → Daemon τ →
    Run (Int × Bytes × Daemon τ) :=
  serviceExec .nodeState pb.nodeStateReq (fun req => ⟨req.id⟩) pb.nodeStateRsp
    (fun req rsp => ⟨req.id,rsp.index,rsp.name.getD (cut []),rsp.count,rsp.uplink,rsp.downlink,
      rsp.memory,rsp.cpu⟩)

/- Only the id goes in, and only the id comes out. -/
def registryExec (pb : Protobuf) : (τ → Bool × τ) → Handler τ .registry → Bytes → Daemon τ →
    Run (Int × Bytes × Daemon τ) :=
  serviceExec .registry pb.registryReq
    (fun req => ⟨req.sid,cut [],cut [],cut [],cut [],0,0,cut [],0⟩) pb.registryRsp
    (fun _ rsp => ⟨rsp.id,cut [],0,none⟩)

def platform (pb : Protobuf) (calloc : τ → Bool × τ) : Platform Service (Handler τ) (Daemon τ) where
  exec
    | .demo => demoExec pb calloc
    | .registry => registryExec pb calloc
    | .vmon => vmonExec pb calloc
    | .nodeState => nodeStateExec pb calloc
  calloc w := ((calloc w.state).1,{w with state := (calloc w.state).2})

abbrev Registry (τ : Type) := List (Callout Service (Handler τ))

def serviceRegister (service : Service) (calloc : Bool) (svc : Registry τ) (args : Handler τ service) :
    Int × Registry τ :=
  pbrpcSvcRegister calloc svc service.scProg service.scVers (some service.scName) service args

def serviceDemoRegister : Bool → Registry τ → Handler τ .demo → Int × Registry τ :=
  serviceRegister .demo

def serviceRegistryRegister : Bool → Registry τ → Handler τ .registry → Int × Registry τ :=
  serviceRegister .registry

def serviceVmonRegister : Bool → Registry τ → Handler τ .vmon → Int × Registry τ :=
  serviceRegister .vmon

def serviceNodeStateRegister : Bool → Registry τ → Handler τ .nodeState → Int × Registry τ :=
  serviceRegister .nodeState

inductive Built : Registry τ → Prop where
  | empty : Built []
  | demo {svc} (calloc args) : Built svc → Built (serviceDemoRegister calloc svc args).2
  | registry {svc} (calloc args) : Built svc → Built (serviceRegistryRegister calloc svc args).2
  | vmon {svc} (calloc args) : Built svc → Built (serviceVmonRegister calloc svc args).2
  | nodeState {svc} (calloc args) : Built svc → Built (serviceNodeStateRegister calloc svc args).2
  | unregister {svc} (prog vers name) : Built svc → Built (pbrpcSvcUnregister svc prog vers name)

theorem scNameInjective {a b : Service} (same : a.scName = b.scName) : a = b := by
  revert same
  cases a <;> cases b <;> decide

structure Named (svc : Registry τ) : Prop where
  own : ∀ s ∈ svc, s.scName = some s.dispatch.scName ∧ s.scProg = s.dispatch.scProg ∧
    s.scVers = s.dispatch.scVers
  once : (svc.map Callout.dispatch).Nodup

theorem Named.register {svc : Registry τ} (n : Named svc) (service : Service) (calloc : Bool)
    (args : Handler τ service) : Named (serviceRegister service calloc svc args).2 := by
  unfold serviceRegister pbrpcSvcRegister
  split
  · split <;> exact n
  · rename_i absent
    split
    · have fresh : ∀ s ∈ svc, s.dispatch ≠ service := by
        intro s member same
        obtain ⟨name,prog,vers⟩ := n.own s member
        have other := findNone absent s member
        rw [same] at name prog vers
        simp [Callout.matches, name, prog, vers] at other
      refine ⟨?_,?_⟩
      · intro s member
        rcases List.mem_cons.mp member with rfl | old
        · exact ⟨rfl,rfl,rfl⟩
        · exact n.own s old
      · refine List.nodup_cons.mpr ⟨?_,n.once⟩
        intro member
        obtain ⟨s,there,same⟩ := List.mem_map.mp member
        exact fresh s there same
    · exact n

theorem Named.unregister {svc : Registry τ} (n : Named svc) (prog vers : BitVec 32)
    (name : Option CString) : Named (pbrpcSvcUnregister svc prog vers name) := by
  unfold pbrpcSvcUnregister
  split
  · exact n
  · rename_i before s after found
    have kept : (before ++ after).Sublist svc := by
      rw [(findSome found).1]
      exact (List.sublist_cons_self s after).append_left before
    exact ⟨fun t member => n.own t (kept.subset member),n.once.sublist (kept.map _)⟩

theorem Built.named {svc : Registry τ} (built : Built svc) : Named svc := by
  induction built with
  | empty => exact ⟨by simp,List.nodup_nil⟩
  | demo calloc args _ ih => exact ih.register .demo calloc args
  | registry calloc args _ ih => exact ih.register .registry calloc args
  | vmon calloc args _ ih => exact ih.register .vmon calloc args
  | nodeState calloc args _ ih => exact ih.register .nodeState calloc args
  | unregister prog vers name _ ih => exact ih.unregister prog vers name

theorem Named.lookup {svc : Registry τ} (n : Named svc) {s : Callout Service (Handler τ)}
    (member : s ∈ svc) : methodLookup s.dispatch.scName svc = .ok (some s) := by
  have names : ∀ t ∈ svc, t.scName ≠ none := fun t there => by simp [(n.own t there).1]
  rcases lookupReturns names s.dispatch.scName with ⟨_,absent⟩ | ⟨t,there,name,found⟩
  · exact absurd (n.own s member).1 (absent s member)
  · have same : t.dispatch = s.dispatch :=
      scNameInjective (Option.some.inj ((n.own t there).1.symm.trans name))
    rw [found, List.inj_on_of_nodup_map n.once there member same]

theorem Named.lookupAbsent {svc : Registry τ} (n : Named svc) (method : CString)
    (absent : ∀ s ∈ svc, s.dispatch.scName ≠ method) : methodLookup method svc = .ok none := by
  have names : ∀ t ∈ svc, t.scName ≠ none := fun t there => by simp [(n.own t there).1]
  rcases lookupReturns names method with ⟨none,_⟩ | ⟨t,there,name,_⟩
  · exact none
  · exact absurd (Option.some.inj ((n.own t there).1.symm.trans name)) (absent t there)

def Service.Accepts (pb : Protobuf) : Service → Bytes → Prop
  | .demo, params => pb.demoReq.unpack params ≠ none
  | .registry, params => pb.registryReq.unpack params ≠ none
  | .vmon, params => pb.vmonReq.unpack params ≠ none
  | .nodeState, params => pb.nodeStateReq.unpack params ≠ none

theorem execStops {Q R SQ SR : Type} {service : Service} {req : Codec Q} {svcReq : Q → SQ}
    {rsp : Codec R} {pbcRsp : Q → SR → R} {calloc : τ → Bool × τ} {h : SvcHandler SQ SR τ}
    {params : Bytes} {w : Daemon τ} (invalid : req.unpack params = none) :
    serviceExec service req svcReq rsp pbcRsp calloc h params w = .error .nullDeref := by
  simp only [serviceExec, invalid]

theorem execEnds {Q R SQ SR : Type} {service : Service} {req : Codec Q} {svcReq : Q → SQ}
    {rsp : Codec R} {pbcRsp : Q → SR → R} {calloc : τ → Bool × τ} {h : SvcHandler SQ SR τ}
    {params : Bytes} {w : Daemon τ} (valid : req.unpack params ≠ none) :
    Returns (serviceExec service req svcReq rsp pbcRsp calloc h params w) := by
  obtain ⟨message,unpacked⟩ := Option.ne_none_iff_exists'.mp valid
  exact ⟨_,by simp only [serviceExec, unpacked]; rfl⟩

theorem platformStops {pb : Protobuf} {calloc : τ → Bool × τ} {service : Service}
    (args : Handler τ service) {params : Bytes} (invalid : ¬ service.Accepts pb params) (w : Daemon τ) :
    (platform pb calloc).exec service args params w = .error .nullDeref := by
  cases service with
  | demo =>
    change demoExec pb calloc args params w = _
    exact execStops (not_not.mp invalid)
  | registry =>
    change registryExec pb calloc args params w = _
    exact execStops (not_not.mp invalid)
  | vmon =>
    change vmonExec pb calloc args params w = _
    exact execStops (not_not.mp invalid)
  | nodeState =>
    change nodeStateExec pb calloc args params w = _
    exact execStops (not_not.mp invalid)

theorem platformEnds {pb : Protobuf} (calloc : τ → Bool × τ) {service : Service}
    (args : Handler τ service) {params : Bytes} (valid : service.Accepts pb params) (w : Daemon τ) :
    Returns ((platform pb calloc).exec service args params w) := by
  cases service with
  | demo =>
    change Returns (demoExec pb calloc args params w)
    exact execEnds valid
  | registry =>
    change Returns (registryExec pb calloc args params w)
    exact execEnds valid
  | vmon =>
    change Returns (vmonExec pb calloc args params w)
    exact execEnds valid
  | nodeState =>
    change Returns (nodeStateExec pb calloc args params w)
    exact execEnds valid

def Malformed (pb : Protobuf) (svc : Registry τ) (body : Bytes) : Prop :=
  pb.request.unpack body = none ∨ ∃ req params s, pb.request.unpack body = some req ∧
    req.params = some params ∧ s ∈ svc ∧ s.dispatch.scName = req.method ∧
    ¬ s.dispatch.Accepts pb params

def Refused (pb : Protobuf) (calloc : τ → Bool × τ) (svc : Registry τ) (body : Bytes)
    (w : Daemon τ) : Prop :=
  ∃ ret rsp after, rpcInvokeCall (platform pb calloc) svc (pb.request.unpack body) .init w =
      .ok (ret,rsp,after) ∧ ret ≠ 0 ∧ rsp.result = [] ∧ after.callbacks = w.callbacks

theorem invokeMalformed {pb : Protobuf} {calloc : τ → Bool × τ} {svc : Registry τ} (n : Named svc)
    {body : Bytes} (malformed : Malformed pb svc body) (w : Daemon τ) :
    rpcInvokeCall (platform pb calloc) svc (pb.request.unpack body) .init w = .error .nullDeref := by
  rcases malformed with none | ⟨req,params,s,some,given,member,name,invalid⟩
  · rw [none]
    rfl
  · have found := n.lookup member
    rw [name] at found
    simp only [rpcInvokeCall, some, given, found, bind, Except.bind,
      platformStops s.scArgs invalid w]

theorem invokeWellFormed {pb : Protobuf} {calloc : τ → Bool × τ} {svc : Registry τ} (n : Named svc)
    {body : Bytes} (wellFormed : ¬ Malformed pb svc body) (w : Daemon τ) :
    Returns (rpcInvokeCall (platform pb calloc) svc (pb.request.unpack body) .init w) := by
  cases hu : pb.request.unpack body with
  | none => exact absurd (Or.inl hu) wellFormed
  | some req =>
    cases hp : req.params with
    | none => exact ⟨_,by simp only [rpcInvokeCall, hp]; rfl⟩
    | some params =>
      have names : ∀ t ∈ svc, t.scName ≠ none := fun t there => by simp [(n.own t there).1]
      rcases lookupReturns names req.method with ⟨absent,_⟩ | ⟨s,member,name,found⟩
      · exact ⟨_,by simp only [rpcInvokeCall, hp, absent, bind, Except.bind]; rfl⟩
      · have same : s.dispatch.scName = req.method :=
          Option.some.inj ((n.own s member).1.symm.trans name)
        have valid : s.dispatch.Accepts pb params := by
          by_contra invalid
          exact wellFormed (Or.inr ⟨req,params,s,hu,hp,member,same,invalid⟩)
        obtain ⟨value,ran⟩ := platformEnds calloc s.scArgs valid w
        exact ⟨_,by simp only [rpcInvokeCall, hp, found, bind, Except.bind, ran]; rfl⟩

/- Serving a frame reads no field of an absent message, and refuses what is malformed, exactly
when there is nothing malformed to refuse. -/
theorem malformedRefused {pb : Protobuf} (calloc : τ → Bool × τ) {svc : Registry τ} (built : Built svc)
    {body : Bytes} (addressable : 8 + body.length < 2 ^ 63) (rest : Bytes) (c : Conn (Daemon τ)) :
    (Returns (processRequest pb (platform pb calloc) svc (frame body ++ rest) c) ∧
        (Malformed pb svc body → Refused pb calloc svc body c.world)) ↔
      ¬ Malformed pb svc body := by
  rw [processReturns pb (platform pb calloc) svc (by omega) rest c]
  constructor
  · intro h malformed
    obtain ⟨⟨value,returned⟩,_⟩ := h
    rw [invokeMalformed built.named malformed c.world] at returned
    cases returned
  · intro wellFormed
    exact ⟨invokeWellFormed built.named wellFormed c.world,fun malformed => absurd malformed wellFormed⟩

def alwaysMemory : Unit → Bool × Unit := fun w => (true,w)
def fixedDemo : Handler Unit .demo := ⟨fun _ w => (0,⟨3,4096⟩,w)⟩
def demoRegistry : Registry Unit := (serviceDemoRegister true [] fixedDemo).2
def idle : Conn (Daemon Unit) := ⟨⟨(),[]⟩,[],[]⟩

theorem demoBuilt : Built demoRegistry := .demo true fixedDemo .empty

def demoBody (params : Bytes) : Bytes := wire.request.pack ⟨9,cstr "Loader.demo",some params⟩

theorem demoRequestServed : Returns (processRequest wire (platform wire alwaysMemory) demoRegistry
    (frame (demoBody (wire.demoReq.pack ⟨5⟩)) ++ []) idle) := by
  refine ((malformedRefused alwaysMemory demoBuilt (by decide) [] idle).mpr ?_).1
  have body : wire.request.unpack (demoBody (wire.demoReq.pack ⟨5⟩)) =
      some ⟨9,cstr "Loader.demo",some (wire.demoReq.pack ⟨5⟩)⟩ := wireLawful.request.unpackPack _
  intro h
  rcases h with none | ⟨req,params,s,some,given,member,_,invalid⟩
  · rw [body] at none
    cases none
  · rw [body] at some
    obtain rfl := Option.some.inj some
    obtain rfl := Option.some.inj given
    obtain rfl := List.mem_singleton.mp member
    apply invalid
    show wire.demoReq.unpack (wire.demoReq.pack ⟨5⟩) ≠ none
    rw [wireLawful.demoReq.unpackPack]
    exact Option.some_ne_none _

theorem malformedFatal :
    Malformed wire demoRegistry [] ∧
    processRequest wire (platform wire alwaysMemory) demoRegistry (frame []) idle =
      .error .nullDeref ∧
    Malformed wire demoRegistry (demoBody [255]) ∧
    processRequest wire (platform wire alwaysMemory) demoRegistry (frame (demoBody [255])) idle =
      .error .nullDeref := by
  refine ⟨Or.inl rfl,rfl,Or.inr ⟨⟨9,cstr "Loader.demo",some [255]⟩,[255],_,rfl,rfl,
    List.mem_cons_self,rfl,?_⟩,rfl⟩
  intro accepted
  exact accepted rfl

end VmpRl.Services
