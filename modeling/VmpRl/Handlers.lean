import VmpRl.Base.Lifecycle
import VmpRl.Registrations
import VmpRl.Services

/-! The tasks that serve requests, and the registry that keeps their handlers: tasks are created,
started and shut down in any order, and requests are served in between. -/
namespace VmpRl.Handlers
open Octets CRuntime PbrpcMessages PbrpcService Callouts Services Transition Lifecycle

inductive LoadTask where
  | demo
  | vmon
  | nodeState
  deriving DecidableEq, Repr

def LoadTask.service : LoadTask → Service
  | .demo => .demo
  | .vmon => .vmon
  | .nodeState => .nodeState

inductive Stage where
  | created
  | started
  | registered
  deriving DecidableEq, Repr

/- `svc_handler_t` by its ctx, the task it was made for; the tasks are numbered as they are created. -/
abbrev HandlerList := List (Callout Service (fun _ => Nat))

structure Server where
  svcHead : HandlerList
  tasks : Nat
  held : Nat → Option (LoadTask × Stage)
  trace : List (Op Nat)

def Server.initial : Server := ⟨[],0,fun _ => none,[]⟩

def Server.log (s : Server) (ops : List (Op Nat)) : Server := {s with trace := s.trace ++ ops}

def Server.hold (s : Server) (id : Nat) (task : Option (LoadTask × Stage)) : Server :=
  {s with held := fun i => if i = id then task else s.held i}

def loadRegister (calloc : Bool) (task : LoadTask) (ctx : Nat) (svcHead : HandlerList) : HandlerList :=
  (pbrpcSvcRegister calloc svcHead task.service.scProg task.service.scVers (some task.service.scName)
    task.service ctx).2

def handlers : Platform Service (fun _ => Nat) (List (Op Nat)) where
  exec _ ctx _ trace := .ok (0,[],trace ++ [.use ctx])
  calloc trace := (true,trace)

inductive Event where
  | create (task : LoadTask)
  | start (id : Nat)
  | register (task : LoadTask) (id : Nat) (calloc : Bool)
  | done (id : Nat)
  | request (req : PbcRpcRequest)
  deriving DecidableEq

/- The thread of a task registers before its loop, and `load_*_done` waits for the thread. None of
the shutdown functions calls `pbrpc_svc_unregister`. -/
def step (s : Server) : Event → Option Server
  | .create task =>
    some (({s with tasks := s.tasks + 1}.log [.acquire s.tasks]).hold s.tasks (some (task,.created)))
  | .start id => match s.held id with
    | some (task,.created) => some (s.hold id (some (task,.started)))
    | _ => none
  | .register task id calloc => if s.held id = some (task,.started) then
      some ({s with svcHead := loadRegister calloc task id s.svcHead}.hold id (some (task,.registered)))
    else none
  | .done id => match s.held id with
    | some (_,.created) => some ((s.log [.release id]).hold id none)
    | some (_,.registered) => some ((s.log [.release id]).hold id none)
    | _ => none
  | .request req => match rpcInvokeCall handlers s.svcHead (some req) .init s.trace with
    | .ok (_,_,trace) => some {s with trace := trace}
    | .error _ => none

def system : System Server Event := ⟨(· = .initial),step⟩

def registrant (past : List Event) (service : Service) : Option Nat :=
  past.findSome? (fun e => match e with
    | .register task id true => if task.service = service then some id else none
    | _ => none)

def Answerable (past : List Event) : Event → Prop
  | .request req => req.params ≠ none → ∀ service : Service, service.scName = req.method →
      ∀ id, registrant past service = some id → Event.done id ∉ past
  | _ => True

structure Linked (past : List Event) (svcHead : HandlerList) : Prop where
  own : ∀ s ∈ svcHead, tripleOf s = (s.dispatch.scProg,s.dispatch.scVers,some s.dispatch.scName)
  owner : ∀ s ∈ svcHead, registrant past s.dispatch = some s.scArgs
  present : ∀ service id, registrant past service = some id → ∃ s ∈ svcHead, s.dispatch = service

structure Known (past : List Event) (s : Server) : Prop where
  linked : Linked past s.svcHead
  unborn : ∀ id, s.tasks ≤ id → lifeOf id s.trace = .absent ∧ s.held id = none
  alive : ∀ id task, s.held id = some task → lifeOf id s.trace = .live
  ended : ∀ id, lifeOf id s.trace = .gone ↔ Event.done id ∈ past
  born : ∀ service id, registrant past service = some id → lifeOf id s.trace ≠ .absent

theorem registrantSnoc (past : List Event) (e : Event) (service : Service) :
    registrant (past ++ [e]) service = (registrant past service).or (registrant [e] service) := by
  simp [registrant, List.findSome?_append]

theorem registrantKept {past : List Event} {e : Event} (other : ∀ task id, e ≠ .register task id true)
    (service : Service) : registrant (past ++ [e]) service = registrant past service := by
  rw [registrantSnoc]
  have none : registrant [e] service = none := by
    cases e with
    | register task id calloc => cases calloc with
      | true => exact absurd rfl (other task id)
      | false => rfl
    | create | start | done | request => rfl
  rw [none, Option.or_none]

theorem Linked.skip {past : List Event} {e : Event} {svcHead : HandlerList} (l : Linked past svcHead)
    (other : ∀ task id, e ≠ .register task id true) : Linked (past ++ [e]) svcHead := by
  refine ⟨l.own,?_,?_⟩
  · intro s member
    rw [registrantKept other]
    exact l.owner s member
  · intro service id found
    rw [registrantKept other] at found
    exact l.present service id found

theorem serviceTripleApart {a b : Service}
    (clash : Conflicting (a.scProg,a.scVers,some a.scName) (b.scProg,b.scVers,some b.scName)) : a = b := by
  obtain ⟨_,_,same | null | null⟩ := clash
  · exact scNameInjective (Option.some.inj same)
  · cases null
  · cases null

theorem Linked.register {past : List Event} {svcHead : HandlerList} (l : Linked past svcHead)
    (task : LoadTask) (id : Nat) (calloc : Bool) :
    Linked (past ++ [.register task id calloc]) (loadRegister calloc task id svcHead) := by
  unfold loadRegister
  cases ran : pbrpcSvcRegister calloc svcHead task.service.scProg task.service.scVers
    (some task.service.scName) task.service id with
  | mk ret after =>
    obtain ⟨s,member,matched,rfl,_⟩ | ⟨fresh,⟨_,rfl,rfl⟩ | ⟨_,rfl,rfl⟩⟩ := registerCases ran
    · have clash := (matchesIff s _ _ _).mp matched
      rw [l.own s member] at clash
      have same := serviceTripleApart clash
      have first : ∀ service, registrant (past ++ [.register task id calloc]) service =
          registrant past service := by
        intro service
        rw [registrantSnoc]
        by_cases own : task.service = service
        · rw [← own, ← same, l.owner s member]
          rfl
        · have none : registrant [.register task id calloc] service = none := by
            cases calloc <;> simp [registrant, own]
          rw [none, Option.or_none]
      refine ⟨l.own,?_,?_⟩
      · intro t there
        rw [first]
        exact l.owner t there
      · intro service owner found
        rw [first] at found
        exact l.present service owner found
    · have nobody : registrant past task.service = none := by
        cases found : registrant past task.service with
        | none => rfl
        | some owner =>
          obtain ⟨s,member,same⟩ := l.present _ _ found
          have other := (matchesFalse s _ _ _).mp (fresh s member)
          rw [l.own s member, same] at other
          exact absurd ⟨rfl,rfl,Or.inl rfl⟩ other
      refine ⟨?_,?_,?_⟩
      · intro t there
        rcases List.mem_cons.mp there with rfl | old
        · rfl
        · exact l.own t old
      · intro t there
        rw [registrantSnoc]
        rcases List.mem_cons.mp there with rfl | old
        · simp only [nobody]
          simp [registrant]
        · rw [l.owner t old]
          rfl
      · intro service owner found
        by_cases own : task.service = service
        · exact ⟨_,List.mem_cons_self,own⟩
        · rw [registrantSnoc] at found
          have none : registrant [.register task id true] service = none := by simp [registrant, own]
          rw [none, Option.or_none] at found
          obtain ⟨s,member,same⟩ := l.present _ _ found
          exact ⟨s,List.mem_cons_of_mem _ member,same⟩
    · exact l.skip (by simp)

theorem requestServed {past : List Event} {s : Server} (l : Linked past s.svcHead) (req : PbcRpcRequest) :
    ∃ ops, step s (.request req) = some (s.log ops) ∧
      ((ops = [] ∧ (req.params = none ∨ ∀ service : Service, service.scName = req.method →
        registrant past service = none)) ∨
      ∃ service id, req.params ≠ none ∧ service.scName = req.method ∧
        registrant past service = some id ∧ ops = [.use id]) := by
  have names : ∀ t ∈ s.svcHead, t.scName = some t.dispatch.scName := fun t member =>
    congrArg (fun triple => triple.2.2) (l.own t member)
  cases params : req.params with
  | none =>
    refine ⟨[],?_,Or.inl ⟨rfl,Or.inl rfl⟩⟩
    simp [step, rpcInvokeCall, params, Server.log]
  | some bytes =>
    have named : ∀ t ∈ s.svcHead, t.scName ≠ none := fun t member => by simp [names t member]
    rcases lookupReturns named req.method with ⟨missing,absent⟩ | ⟨t,member,name,found⟩
    · refine ⟨[],?_,Or.inl ⟨rfl,Or.inr ?_⟩⟩
      · simp [step, rpcInvokeCall, params, missing, bind, Except.bind, Server.log]
      · intro service same
        cases registered : registrant past service with
        | none => rfl
        | some id =>
          obtain ⟨t,member,own⟩ := l.present _ _ registered
          exact absurd (by rw [names t member, own, same]) (absent t member)
    · refine ⟨[.use t.scArgs],?_,Or.inr ⟨t.dispatch,t.scArgs,by simp,?_,l.owner t member,rfl⟩⟩
      · simp [step, rpcInvokeCall, params, found, bind, Except.bind, handlers, Server.log]
      · exact Option.some.inj ((names t member).symm.trans name)

theorem Known.quiet {past : List Event} {s t : Server} {e : Event} (k : Known past s)
    (linked : Linked (past ++ [e]) t.svcHead) (tasks : t.tasks = s.tasks)
    (lives : ∀ id, lifeOf id t.trace = lifeOf id s.trace)
    (holds : ∀ id, t.held id ≠ none ↔ s.held id ≠ none) (undone : ∀ id, e ≠ .done id)
    (born : ∀ service id, registrant (past ++ [e]) service = some id → lifeOf id s.trace ≠ .absent) :
    Known (past ++ [e]) t := by
  refine ⟨linked,?_,?_,?_,?_⟩
  · intro id late
    rw [tasks] at late
    obtain ⟨absent,free⟩ := k.unborn id late
    refine ⟨(lives id).trans absent,?_⟩
    apply Classical.byContradiction
    intro held
    exact (holds id).mp held free
  · intro id task held
    obtain ⟨old,there⟩ := Option.ne_none_iff_exists'.mp ((holds id).mp (by simp [held]))
    exact (lives id).trans (k.alive id old there)
  · intro id
    rw [lives id, k.ended id, List.mem_append, List.mem_singleton]
    exact ⟨Or.inl,fun h => h.resolve_right (fun same => undone id same.symm)⟩
  · intro service id found
    rw [lives id]
    exact born service id found

theorem Known.bornKept {past : List Event} {s : Server} {e : Event} (k : Known past s)
    (other : ∀ task id, e ≠ .register task id true) (service : Service) (id : Nat)
    (found : registrant (past ++ [e]) service = some id) : lifeOf id s.trace ≠ .absent := by
  rw [registrantKept other] at found
  exact k.born service id found

theorem createTaken {past : List Event} {s : Server} {task : LoadTask} (k : Known past s) :
    Known (past ++ [.create task]) (({s with tasks := s.tasks + 1}.log [.acquire s.tasks]).hold s.tasks
      (some (task,.created))) := by
  have lives : ∀ id, lifeOf id (s.trace ++ [.acquire s.tasks]) =
      if s.tasks = id then .live else lifeOf id s.trace := by
    intro id
    simp [lifeOfAppend, Life.after]
  have other : ∀ (t : LoadTask) (id : Nat), Event.create task ≠ .register t id true := by simp
  refine ⟨k.linked.skip other,?_,?_,?_,?_⟩
  · intro id late
    have late : s.tasks + 1 ≤ id := late
    obtain ⟨absent,free⟩ := k.unborn id (by omega)
    refine ⟨(lives id).trans ?_,?_⟩
    · rw [if_neg (by omega), absent]
    · simp only [Server.hold]
      rw [if_neg (by omega)]
      exact free
  · intro id held there
    rw [Server.hold, Server.log, lives id]
    by_cases own : s.tasks = id
    · rw [if_pos own]
    · rw [if_neg own]
      simp only [Server.hold, if_neg (Ne.symm own)] at there
      exact k.alive id held there
  · intro id
    show lifeOf id (s.trace ++ [.acquire s.tasks]) = .gone ↔ _
    rw [lives id, List.mem_append, List.mem_singleton, ← k.ended id]
    by_cases own : s.tasks = id
    · have absent := (k.unborn id (by omega)).1
      simp [own, absent]
    · simp [own]
  · intro service id found
    show lifeOf id (s.trace ++ [.acquire s.tasks]) ≠ .absent
    rw [lives id]
    split
    · simp
    · exact k.bornKept other service id found

theorem doneTaken {past : List Event} {s : Server} {id : Nat} {task : LoadTask × Stage} (k : Known past s)
    (held : s.held id = some task) :
    Known (past ++ [.done id]) ((s.log [.release id]).hold id none) := by
  have lives : ∀ i, lifeOf i (s.trace ++ [.release id]) = if id = i then .gone else lifeOf i s.trace := by
    intro i
    simp [lifeOfAppend, Life.after]
  have other : ∀ (t : LoadTask) (i : Nat), Event.done id ≠ .register t i true := by simp
  refine ⟨k.linked.skip other,?_,?_,?_,?_⟩
  · intro i late
    obtain ⟨absent,free⟩ := k.unborn i late
    have apart : ¬ id = i := by
      intro same
      subst same
      rw [free] at held
      cases held
    refine ⟨(lives i).trans ?_,?_⟩
    · rw [if_neg apart, absent]
    · simp only [Server.hold, if_neg (Ne.symm apart)]
      exact free
  · intro i task there
    rw [Server.hold, Server.log, lives i]
    by_cases own : i = id
    · simp [Server.hold, own] at there
    · simp only [Server.hold, if_neg own] at there
      rw [if_neg (Ne.symm own)]
      exact k.alive i task there
  · intro i
    show lifeOf i (s.trace ++ [.release id]) = .gone ↔ _
    rw [lives i, List.mem_append, List.mem_singleton, ← k.ended i]
    by_cases own : id = i
    · simp [own]
    · simp [own, Ne.symm own]
  · intro service i found
    show lifeOf i (s.trace ++ [.release id]) ≠ .absent
    rw [lives i]
    split
    · simp
    · exact k.bornKept other service i found

theorem heldStage {s : Server} {id i : Nat} {old new : LoadTask × Stage} (held : s.held id = some old) :
    (s.hold id (some new)).held i ≠ none ↔ s.held i ≠ none := by
  by_cases own : i = id
  · simp [Server.hold, own, held]
  · simp [Server.hold, own]

theorem startInv {s t : Server} {id : Nat} (h : step s (.start id) = some t) :
    ∃ task, s.held id = some (task,.created) ∧ t = s.hold id (some (task,.started)) := by
  simp only [step] at h
  split at h
  · rename_i task held
    exact ⟨task,held,(Option.some.inj h).symm⟩
  · cases h

theorem registerInv {s t : Server} {task : LoadTask} {id : Nat} {calloc : Bool}
    (h : step s (.register task id calloc) = some t) :
    s.held id = some (task,.started) ∧ t = {s with svcHead := loadRegister calloc task id s.svcHead}.hold
      id (some (task,.registered)) :=
  guardTaken h

theorem doneInv {s t : Server} {id : Nat} (h : step s (.done id) = some t) :
    ∃ task, s.held id = some task ∧ t = (s.log [.release id]).hold id none := by
  simp only [step] at h
  split at h
  · rename_i task held
    exact ⟨_,held,(Option.some.inj h).symm⟩
  · rename_i task held
    exact ⟨_,held,(Option.some.inj h).symm⟩
  · cases h

theorem knownStep (past : List Event) (s : Server) (e : Event) (t : Server) (k : Known past s)
    (h : step s e = some t) : Known (past ++ [e]) t := by
  cases e with
  | create task =>
    cases Option.some.inj h
    exact createTaken k
  | start id =>
    obtain ⟨task,held,rfl⟩ := startInv h
    have other : ∀ (t : LoadTask) (i : Nat), Event.start id ≠ .register t i true := by simp
    exact k.quiet (k.linked.skip other) rfl (fun _ => rfl) (fun i => heldStage held) (by simp)
      (k.bornKept other)
  | register task id calloc =>
    obtain ⟨held,rfl⟩ := registerInv h
    refine k.quiet (k.linked.register task id calloc) rfl (fun _ => rfl) (fun i => heldStage held)
      (by simp) ?_
    intro service i found
    rw [registrantSnoc] at found
    cases old : registrant past service with
    | some owner =>
      rw [old] at found
      cases found
      exact k.born service i old
    | none =>
      rw [old] at found
      cases calloc with
      | false => cases found
      | true =>
        have own : task.service = service ∧ id = i := by simpa [registrant] using found
        rw [← own.2, k.alive id _ held]
        simp
  | done id =>
    obtain ⟨task,held,rfl⟩ := doneInv h
    exact doneTaken k held
  | request req =>
    obtain ⟨ops,taken,served⟩ := requestServed k.linked req
    rw [taken] at h
    cases Option.some.inj h
    have uses : ∀ op ∈ ops, ∃ ctx, op = .use ctx := by
      obtain ⟨rfl,_⟩ | ⟨_,ctx,_,_,_,rfl⟩ := served
      · simp
      · simp
    have other : ∀ (t : LoadTask) (i : Nat), Event.request req ≠ .register t i true := by simp
    exact k.quiet (k.linked.skip other) rfl (fun _ => usesKept uses) (fun _ => Iff.rfl) (by simp)
      (k.bornKept other)

theorem stepExact (past : List Event) (s : Server) (e : Event) (t : Server) (k : Known past s)
    (h : step s e = some t) :
    Disciplined t.trace ↔ Disciplined s.trace ∧ Answerable past e := by
  cases e with
  | create task =>
    cases Option.some.inj h
    have absent := (k.unborn s.tasks (Nat.le_refl _)).1
    exact (disciplinedAppend _ _).trans (and_congr Iff.rfl ⟨fun _ => trivial,fun _ => ⟨absent,trivial⟩⟩)
  | start id =>
    obtain ⟨task,held,rfl⟩ := startInv h
    exact ⟨fun kept => ⟨kept,trivial⟩,And.left⟩
  | register task id calloc =>
    obtain ⟨held,rfl⟩ := registerInv h
    exact ⟨fun kept => ⟨kept,trivial⟩,And.left⟩
  | done id =>
    obtain ⟨task,held,rfl⟩ := doneInv h
    have live := k.alive id task held
    exact (disciplinedAppend _ _).trans (and_congr Iff.rfl ⟨fun _ => trivial,fun _ => ⟨live,trivial⟩⟩)
  | request req =>
    obtain ⟨ops,taken,served⟩ := requestServed k.linked req
    rw [taken] at h
    cases Option.some.inj h
    refine (disciplinedAppend _ _).trans (and_congr Iff.rfl ?_)
    obtain ⟨rfl,nobody⟩ | ⟨service,ctx,params,name,owner,rfl⟩ := served
    · refine ⟨fun _ given service named id found => ?_,fun _ => trivial⟩
      rcases nobody with without | none
      · exact absurd without given
      · rw [none service named] at found
        cases found
    · constructor
      · intro h _ service' named id found ended
        obtain ⟨live,_⟩ := h
        obtain rfl := scNameInjective (named.trans name.symm)
        obtain rfl := Option.some.inj (found.symm.trans owner)
        have gone := (k.ended id).mpr ended
        have live : lifeOf id s.trace = .live := live
        rw [gone] at live
        cases live
      · intro answerable
        have here := answerable params service name ctx owner
        refine ⟨?_,trivial⟩
        show lifeOf ctx s.trace = .live
        cases life : lifeOf ctx s.trace with
        | absent => exact absurd life (k.born service ctx owner)
        | live => rfl
        | gone => exact absurd ((k.ended ctx).mp life) here

theorem initialKnown : Known [] .initial :=
  ⟨⟨by simp [Server.initial],by simp [Server.initial],by simp [registrant]⟩,fun _ _ => ⟨rfl,rfl⟩,
    by simp [Server.initial],by simp [Server.initial, lifeOf],by simp [registrant]⟩

/- Every ctx handed to a handler belongs to a task that lives exactly when no request comes in for
a service whose first registrant has been shut down. -/
theorem handlersOutlived {events : List Event} {s : Server} (ran : system.run .initial events = some s) :
    Disciplined s.trace ↔ ∀ before e after, events = before ++ e :: after → Answerable before e := by
  have exact := system.exactHistory knownStep stepExact [] initialKnown ran
  have start : Disciplined Server.initial.trace := trivial
  simpa [start] using exact

def demoRequest : PbcRpcRequest := ⟨1,cstr "Loader.demo",some []⟩

def servedInTime : List Event :=
  [.create .demo,.start 0,.register .demo 0 true,.request demoRequest,.done 0]

theorem liveServed : ∃ s, system.run .initial servedInTime = some s ∧ Disciplined s.trace := by
  have runs : ∃ s, system.run .initial servedInTime = some s := ⟨_,rfl⟩
  obtain ⟨s,ran⟩ := runs
  refine ⟨s,ran,(handlersOutlived ran).mpr ?_⟩
  intro before e after split
  match before with
  | [] => cases split; trivial
  | [_] => cases split; trivial
  | [_,_] => cases split; trivial
  | [_,_,_] =>
    cases split
    intro _ service _ id _
    simp
  | [_,_,_,_] => cases split; trivial
  | _ :: _ :: _ :: _ :: _ :: rest =>
    have lengths := congrArg List.length split
    simp [servedInTime] at lengths

/- The task is shut down, even replaced, and the next request still runs with its ctx. -/
theorem goneServed : ∃ s, system.run .initial
    [.create .demo,.start 0,.register .demo 0 true,.done 0,.create .demo,.start 1,.register .demo 1 true,
      .request demoRequest] = some s ∧
    s.trace = [.acquire 0,.release 0,.acquire 1,.use 0] ∧ ¬ Disciplined s.trace := by
  refine ⟨_,rfl,rfl,?_⟩
  intro h
  obtain ⟨_,_,_,live,_⟩ := h
  cases live

end VmpRl.Handlers
