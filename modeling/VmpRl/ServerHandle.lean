import VmpRl.Base.Lifecycle
import VmpRl.Base.Transition

/-! The handle of the RPC service: `rpc_server_start`, `rpc_svc_thread`, the tasks that register through
`vmp_rpcsvc_t.svc`, the error callback of the listener and `vmp_rpcsvc_destroy`. The service and the `vmp_rpcsvc_t`
that it is stored in are both allocated and freed. -/
namespace VmpRl.ServerHandle
open Lifecycle Transition

inductive Ptr where
  | null
  | svc
  deriving DecidableEq, Repr

inductive Object where
  | service (p : Ptr)
  | handle
  deriving DecidableEq, Repr

structure VmpRpcsvc where
  svc : Ptr
  priv : Ptr
  cond : Int
  initialized : Bool
  deriving DecidableEq, Repr

inductive ThreadPc where
  | entry
  | made
  | published
  | serving
  | ended
  deriving DecidableEq, Repr

inductive CorePc where
  | begin
  | created
  | joining
  | started
  deriving DecidableEq, Repr

inductive Registrar where
  | demo
  | vmon
  | nodeState
  deriving DecidableEq, Repr

/- `ptr` says whether the core's `thiz->svc` is not NULL. The trace has what is allocated, read or written, and
freed; `waiting` is a `pthread_join` under way. -/
structure Server where
  core : CorePc
  ptr : Bool
  rpcsvc : VmpRpcsvc
  thread : Option ThreadPc
  waiting : Bool
  trace : List (Op Object)
  deriving DecidableEq, Repr

def Server.initial : Server := ⟨.begin,false,⟨.null,.null,0,false⟩,none,false,[]⟩

def Server.log (s : Server) (ops : List (Op Object)) : Server := {s with trace := s.trace ++ ops}

structure NewCalls where
  calloc : Bool
  eventBaseNew : Bool
  evconnlistenerNewBind : Bool
  deriving DecidableEq, Repr

def pbrpcSvcNew (calls : NewCalls) : Ptr :=
  if calls.calloc && calls.eventBaseNew && calls.evconnlistenerNewBind then .svc else .null

def vmpRpcsvcCreate (calloc : Bool) (s : Server) : Server :=
  if calloc then {s.log [.acquire .handle] with ptr := true, rpcsvc := ⟨.null,.null,1,true⟩} else s

def rpcSvcStop (s : Server) : Bool × Server :=
  if s.rpcsvc.initialized then (true,{s with rpcsvc := {s.rpcsvc with cond := 0, initialized := false}})
  else (false,{s with rpcsvc := {s.rpcsvc with cond := 0}})

def vmpRpcsvcDestroy (s : Server) : Server :=
  let s := s.log [.use .handle]
  let s := if s.rpcsvc.priv = .null then s else s.log [.release (.service s.rpcsvc.priv)]
  let (waits, s) := rpcSvcStop s
  if waits then {s with waiting := true} else s.log [.release .handle]

def vmpRpcsvcStart (create : Bool) (s : Server) : Server :=
  if create then {s with thread := some .entry, core := .started}
  else {vmpRpcsvcDestroy s with core := .joining}

inductive Event where
  | create (calloc : Bool)
  | start (create : Bool)
  | new (calls : NewCalls)
  | publish
  | run
  | register (task : Registrar)
  | acceptError
  | returned
  | destroy
  | joined
  deriving DecidableEq, Repr

/- The core ignores what `vmp_rpcsvc_start` returns and keeps its pointer; the tasks run only where that is not
NULL. `accept_error_cb` gets the service itself as its ctx. The join of a thread that was never created may return
with an error. -/
def step (s : Server) : Event → Option Server
  | .create calloc =>
    if s.core = .begin then some {vmpRpcsvcCreate calloc s with core := .created} else none
  | .start create => if s.core = .created then
      some (if s.ptr then vmpRpcsvcStart create s else {s with core := .started})
    else none
  | .new calls => if s.thread = some .entry then
      match pbrpcSvcNew calls with
      | .null => some {s.log [.use .handle] with rpcsvc := {s.rpcsvc with priv := .null}, thread := some .ended}
      | .svc => some {s.log [.acquire (.service .svc),.use .handle] with
          rpcsvc := {s.rpcsvc with priv := .svc}
          thread := some .made}
    else none
  | .publish => if s.thread = some .made then
      some {s.log [.use .handle] with rpcsvc := {s.rpcsvc with svc := s.rpcsvc.priv}, thread := some .published}
    else none
  | .run => if s.thread = some .published then some {s.log [.use .handle] with thread := some .serving} else none
  | .register _ => if s.core = .started ∧ s.ptr = true then
      some (s.log [.use .handle,.use (.service s.rpcsvc.svc)])
    else none
  | .acceptError => if s.thread = some .serving ∧ lifeOf (.service .svc) s.trace = .live then
      some (s.log [.release (.service .svc)])
    else none
  | .returned => if s.thread = some .serving then some {s with thread := some .ended} else none
  | .destroy => if s.core = .started then some (if s.ptr then vmpRpcsvcDestroy s else s) else none
  | .joined => if s.waiting = true ∧ (s.thread = none ∨ s.thread = some .ended) then
      some {s.log [.release .handle] with waiting := false, core := .started}
    else none

def system : System Server Event := ⟨(· = .initial),step⟩

def Orderly (s : Server) : Prop := Disciplined s.trace

instance (s : Server) : Decidable (Orderly s) := inferInstanceAs (Decidable (Disciplined s.trace))

def Makes (e : Event) : Prop := ∃ calls, e = .new calls ∧ pbrpcSvcNew calls = .svc

def Shut (past : List Event) : Prop :=
  ∃ before e after, past = before ++ e :: after ∧ (∃ made ∈ before, Makes made) ∧
    (e = .acceptError ∨ e = .destroy)

def Freed (past : List Event) : Prop :=
  .joined ∈ past ∨ (.create true ∈ past ∧ 2 ≤ past.count .destroy)

theorem shutSnoc (past : List Event) (e : Event) :
    Shut (past ++ [e]) ↔
      Shut past ∨ ((∃ made ∈ past, Makes made) ∧ (e = .acceptError ∨ e = .destroy)) := by
  constructor
  · intro h
    obtain ⟨before,d,after,same,made,ends⟩ := h
    rcases List.eq_nil_or_concat after with rfl | ⟨mid,last,rfl⟩
    · obtain ⟨rfl,single⟩ := List.append_inj' same rfl
      obtain ⟨rfl,_⟩ := List.cons.inj single
      exact Or.inr ⟨made,ends⟩
    · have split : past ++ [e] = (before ++ d :: mid) ++ [last] := by simpa using same
      exact Or.inl ⟨before,d,mid,(List.append_inj' split rfl).1,made,ends⟩
  · intro h
    rcases h with ⟨before,d,after,rfl,made,ends⟩ | ⟨made,ends⟩
    · exact ⟨before,d,after ++ [e],by simp,made,ends⟩
    · exact ⟨past,e,[],rfl,made,ends⟩

theorem freedSnoc {past : List Event} {e : Event} (other : e ≠ .create true ∧ e ≠ .destroy ∧ e ≠ .joined) :
    Freed (past ++ [e]) ↔ Freed past := by
  obtain ⟨notCreate,notDestroy,notJoined⟩ := other
  have count : (past ++ [e]).count .destroy = past.count .destroy := by
    rw [List.count_append, List.count_singleton, if_neg (by simpa using notDestroy), Nat.add_zero]
  simp [Freed, count, Ne.symm notCreate, Ne.symm notJoined]

structure Sound (s : Server) : Prop where
  order : s.rpcsvc.svc = .svc → s.rpcsvc.priv = .svc
  unmade : s.thread = none ∨ s.thread = some .entry → s.rpcsvc.priv = .null
  between : s.thread = some .made → s.rpcsvc.priv = .svc
  manned : s.thread ≠ none → s.core = .started ∧ s.ptr = true
  waited : s.waiting = true → s.ptr = true
  armed : s.core = .created → s.ptr = true → s.rpcsvc.initialized = true
  first : s.core = .begin → s.ptr = false

structure ServiceKnown (past : List Event) (s : Server) : Prop where
  published : s.rpcsvc.svc = .svc ↔ .publish ∈ past
  stored : s.rpcsvc.priv = .svc ↔ ∃ made ∈ past, Makes made
  absent : lifeOf (.service .svc) s.trace = .absent ↔ s.rpcsvc.priv = .null
  gone : lifeOf (.service .svc) s.trace = .gone ↔ Shut past
  null : lifeOf (.service .null) s.trace = .absent

structure HandleKnown (past : List Event) (s : Server) : Prop where
  created : s.ptr = true ↔ .create true ∈ past
  absent : lifeOf .handle s.trace = .absent ↔ s.ptr = false
  gone : lifeOf .handle s.trace = .gone ↔ Freed past
  early : s.core = .begin ∨ s.core = .created → .joined ∉ past
  none : s.core ≠ .started → .destroy ∉ past
  stopped : s.ptr = true → s.core = .started → ¬ Freed past → (s.rpcsvc.initialized = false ↔ .destroy ∈ past)

theorem Sound.fresh {s : Server} (sound : Sound s) (early : s.core ≠ .started) : s.thread = none := by
  cases born : s.thread with
  | none => rfl
  | some pc => exact absurd (sound.manned (by simp [born])).1 early

theorem Sound.unpublished {s : Server} (sound : Sound s) (null : s.rpcsvc.priv = .null) :
    s.rpcsvc.svc = .null := by
  cases there : s.rpcsvc.svc with
  | null => rfl
  | svc =>
    have priv := sound.order there
    rw [null] at priv
    cases priv

section Inversion
variable {s t : Server}

def destroyOps (r : VmpRpcsvc) : List (Op Object) :=
  .use .handle :: ((if r.priv = .null then [] else [.release (.service .svc)]) ++
    if r.initialized then [] else [.release .handle])

structure Destroyed (s t : Server) : Prop where
  core : t.core = s.core
  ptr : t.ptr = s.ptr
  thread : t.thread = s.thread
  svc : t.rpcsvc.svc = s.rpcsvc.svc
  priv : t.rpcsvc.priv = s.rpcsvc.priv
  stopped : t.rpcsvc.initialized = false
  trace : t.trace = s.trace ++ destroyOps s.rpcsvc

theorem destroySpec (s : Server) : Destroyed s (vmpRpcsvcDestroy s) := by
  obtain ⟨core,ptr,⟨handle,priv,cond,initialized⟩,thread,waiting,trace⟩ := s
  have logged : (vmpRpcsvcDestroy ⟨core,ptr,⟨handle,priv,cond,initialized⟩,thread,waiting,trace⟩).trace =
      trace ++ destroyOps ⟨handle,priv,cond,initialized⟩ := by
    cases priv <;> cases initialized <;> simp [destroyOps, vmpRpcsvcDestroy, rpcSvcStop, Server.log]
  refine ⟨?_,?_,?_,?_,?_,?_,logged⟩ <;> cases priv <;> cases initialized <;> rfl

theorem createInv {calloc : Bool} (h : step s (.create calloc) = some t) :
    s.core = .begin ∧ (t = {s with core := .created} ∧ calloc = false ∨
      calloc = true ∧ t = {s.log [.acquire .handle] with
        core := .created
        ptr := true
        rpcsvc := ⟨.null,.null,1,true⟩}) := by
  obtain ⟨here,rfl⟩ := guardTaken h
  cases calloc with
  | true => exact ⟨here,Or.inr ⟨rfl,rfl⟩⟩
  | false => exact ⟨here,Or.inl ⟨rfl,rfl⟩⟩

theorem startInv {create : Bool} (h : step s (.start create) = some t) :
    s.core = .created ∧ (s.ptr = false ∧ t = {s with core := .started} ∨
      s.ptr = true ∧ create = true ∧ t = {s with thread := some .entry, core := .started} ∨
      s.ptr = true ∧ create = false ∧ t = {vmpRpcsvcDestroy s with core := .joining}) := by
  obtain ⟨here,rfl⟩ := guardTaken h
  refine ⟨here,?_⟩
  cases there : s.ptr with
  | false => exact Or.inl ⟨rfl,by simp⟩
  | true => cases create with
    | true => exact Or.inr (Or.inl ⟨rfl,rfl,by simp [vmpRpcsvcStart, there]⟩)
    | false => exact Or.inr (Or.inr ⟨rfl,rfl,by simp [vmpRpcsvcStart]⟩)

theorem newInv {calls : NewCalls} (h : step s (.new calls) = some t) :
    s.thread = some .entry ∧
    ((pbrpcSvcNew calls = .null ∧
        t = {s.log [.use .handle] with rpcsvc := {s.rpcsvc with priv := .null}, thread := some .ended}) ∨
      (pbrpcSvcNew calls = .svc ∧ t = {s.log [.acquire (.service .svc),.use .handle] with
        rpcsvc := {s.rpcsvc with priv := .svc}
        thread := some .made})) := by
  simp only [step] at h
  split at h
  · rename_i here
    split at h
    · rename_i null
      exact ⟨here,Or.inl ⟨null,(Option.some.inj h).symm⟩⟩
    · rename_i made
      exact ⟨here,Or.inr ⟨made,(Option.some.inj h).symm⟩⟩
  · cases h

theorem publishInv (h : step s .publish = some t) :
    s.thread = some .made ∧ t = {s.log [.use .handle] with
      rpcsvc := {s.rpcsvc with svc := s.rpcsvc.priv}
      thread := some .published} :=
  guardTaken h

theorem runInv (h : step s .run = some t) :
    s.thread = some .published ∧ t = {s.log [.use .handle] with thread := some .serving} :=
  guardTaken h

theorem registerInv {task : Registrar} (h : step s (.register task) = some t) :
    s.ptr = true ∧ t = s.log [.use .handle,.use (.service s.rpcsvc.svc)] :=
  ⟨(guardTaken h).1.2,(guardTaken h).2⟩

theorem acceptErrorInv (h : step s .acceptError = some t) :
    lifeOf (.service .svc) s.trace = .live ∧ t = s.log [.release (.service .svc)] :=
  ⟨(guardTaken h).1.2,(guardTaken h).2⟩

theorem returnedInv (h : step s .returned = some t) :
    s.thread = some .serving ∧ t = {s with thread := some .ended} :=
  guardTaken h

theorem destroyInv (h : step s .destroy = some t) :
    s.core = .started ∧ (s.ptr = false ∧ t = s ∨ s.ptr = true ∧ t = vmpRpcsvcDestroy s) := by
  obtain ⟨here,rfl⟩ := guardTaken h
  refine ⟨here,?_⟩
  cases there : s.ptr with
  | false => exact Or.inl ⟨rfl,by simp⟩
  | true => exact Or.inr ⟨rfl,by simp⟩

theorem joinedInv (h : step s .joined = some t) :
    s.waiting = true ∧ (s.thread = none ∨ s.thread = some .ended) ∧
      t = {s.log [.release .handle] with waiting := false, core := .started} :=
  ⟨(guardTaken h).1.1,(guardTaken h).1.2,(guardTaken h).2⟩

end Inversion

theorem soundStart {s t : Server} {create : Bool} (sound : Sound s) (h : step s (.start create) = some t) :
    Sound t := by
  obtain ⟨here,how⟩ := startInv h
  have none := sound.fresh (by simp [here])
  have null := sound.unmade (Or.inl none)
  rcases how with ⟨_,rfl⟩ | ⟨there,_,rfl⟩ | ⟨there,_,rfl⟩
  · exact ⟨sound.order,sound.unmade,sound.between,fun born => absurd none born,sound.waited,by simp,by simp⟩
  · exact ⟨sound.order,fun _ => null,by simp,fun _ => ⟨rfl,there⟩,sound.waited,by simp,by simp⟩
  · have d := destroySpec s
    refine ⟨?_,fun _ => d.priv.trans null,?_,?_,fun _ => d.ptr.trans there,by simp,by simp⟩
    · show (vmpRpcsvcDestroy s).rpcsvc.svc = .svc → (vmpRpcsvcDestroy s).rpcsvc.priv = .svc
      rw [d.svc, d.priv]
      exact sound.order
    · intro made
      exact absurd ((d.thread.symm.trans made).symm.trans none) (by simp)
    · intro born
      exact absurd (d.thread.trans none) born

theorem soundDestroy {s t : Server} (sound : Sound s) (h : step s .destroy = some t) : Sound t := by
  obtain ⟨here,⟨_,rfl⟩ | ⟨there,rfl⟩⟩ := destroyInv h
  · exact sound
  · have d := destroySpec s
    refine ⟨?_,?_,?_,?_,fun _ => d.ptr.trans there,?_,?_⟩
    · rw [d.svc, d.priv]
      exact sound.order
    · rw [d.thread, d.priv]
      exact sound.unmade
    · rw [d.thread, d.priv]
      exact sound.between
    · rw [d.thread, d.core, d.ptr]
      exact sound.manned
    · rw [d.core, here]
      intro created
      cases created
    · rw [d.core, here]
      intro begin
      cases begin

theorem soundStep {s t : Server} {e : Event} (sound : Sound s) (h : step s e = some t) : Sound t := by
  cases e with
  | create calloc =>
    obtain ⟨begin,⟨rfl,_⟩ | ⟨_,rfl⟩⟩ := createInv h
    · have none := sound.fresh (by simp [begin])
      refine ⟨sound.order,sound.unmade,sound.between,fun born => absurd none born,sound.waited,?_,by simp⟩
      intro _ there
      exact absurd ((sound.first begin).symm.trans there) (by simp)
    · have none := sound.fresh (by simp [begin])
      refine ⟨by simp,fun _ => rfl,?_,fun born => absurd none born,fun _ => rfl,fun _ _ => rfl,by simp⟩
      intro made
      exact absurd (none.symm.trans made) (by simp)
  | start create => exact soundStart sound h
  | new calls =>
    obtain ⟨entry,⟨_,rfl⟩ | ⟨_,rfl⟩⟩ := newInv h
    · have null := sound.unmade (Or.inr entry)
      refine ⟨?_,by simp,by simp,fun _ => sound.manned (by simp [entry]),sound.waited,sound.armed,sound.first⟩
      intro there
      exact absurd ((sound.unpublished null).symm.trans there) (by simp)
    · exact ⟨fun _ => rfl,by simp,fun _ => rfl,fun _ => sound.manned (by simp [entry]),sound.waited,sound.armed,sound.first⟩
  | publish =>
    obtain ⟨made,rfl⟩ := publishInv h
    exact ⟨id,by simp,by simp,fun _ => sound.manned (by simp [made]),sound.waited,sound.armed,sound.first⟩
  | run =>
    obtain ⟨published,rfl⟩ := runInv h
    exact ⟨sound.order,by simp,by simp,fun _ => sound.manned (by simp [published]),sound.waited,sound.armed,sound.first⟩
  | register task =>
    obtain ⟨_,rfl⟩ := registerInv h
    exact ⟨sound.order,sound.unmade,sound.between,sound.manned,sound.waited,sound.armed,sound.first⟩
  | acceptError =>
    obtain ⟨_,rfl⟩ := acceptErrorInv h
    exact ⟨sound.order,sound.unmade,sound.between,sound.manned,sound.waited,sound.armed,sound.first⟩
  | returned =>
    obtain ⟨serving,rfl⟩ := returnedInv h
    exact ⟨sound.order,by simp,by simp,fun _ => sound.manned (by simp [serving]),sound.waited,sound.armed,sound.first⟩
  | destroy => exact soundDestroy sound h
  | joined =>
    obtain ⟨waiting,_,rfl⟩ := joinedInv h
    exact ⟨sound.order,sound.unmade,sound.between,fun _ => ⟨rfl,sound.waited waiting⟩,by simp,by simp,by simp⟩

section Service
variable {past : List Event} {s t : Server} {e : Event}

theorem ServiceKnown.quiet (k : ServiceKnown past s) (svc : t.rpcsvc.svc = s.rpcsvc.svc)
    (priv : t.rpcsvc.priv = s.rpcsvc.priv)
    (lives : ∀ p, lifeOf (.service p) t.trace = lifeOf (.service p) s.trace)
    (other : e ≠ .publish ∧ ¬ Makes e ∧ e ≠ .acceptError ∧ e ≠ .destroy) : ServiceKnown (past ++ [e]) t := by
  obtain ⟨unpublished,unmade,fine,kept⟩ := other
  refine ⟨?_,?_,?_,?_,?_⟩
  · rw [svc, k.published]
    simp [Ne.symm unpublished]
  · rw [priv, k.stored]
    simp [or_and_right, exists_or, unmade]
  · rw [lives, priv]
    exact k.absent
  · rw [lives, k.gone, shutSnoc]
    simp [fine, kept]
  · rw [lives]
    exact k.null

theorem ServiceKnown.shut (k : ServiceKnown past s) (svc : t.rpcsvc.svc = s.rpcsvc.svc)
    (priv : t.rpcsvc.priv = s.rpcsvc.priv) (made : s.rpcsvc.priv = .svc)
    (gone : lifeOf (.service .svc) t.trace = .gone)
    (null : lifeOf (.service .null) t.trace = lifeOf (.service .null) s.trace)
    (ends : e = .acceptError ∨ e = .destroy) : ServiceKnown (past ++ [e]) t := by
  have unpublished : e ≠ .publish := by
    rcases ends with rfl | rfl <;> simp
  have unmade : ¬ Makes e := by
    rcases ends with rfl | rfl <;> simp [Makes]
  refine ⟨?_,?_,?_,?_,?_⟩
  · rw [svc, k.published]
    simp [Ne.symm unpublished]
  · rw [priv, k.stored]
    simp [or_and_right, exists_or, unmade]
  · rw [gone, priv, made]
    simp
  · rw [gone, shutSnoc]
    exact ⟨fun _ => Or.inr ⟨k.stored.mp made,ends⟩,fun _ => rfl⟩
  · rw [null]
    exact k.null

theorem serviceNew {calls : NewCalls} (sound : Sound s) (k : ServiceKnown past s)
    (h : step s (.new calls) = some t) : ServiceKnown (past ++ [.new calls]) t := by
  obtain ⟨entry,⟨failed,rfl⟩ | ⟨made,rfl⟩⟩ := newInv h
  · have null := sound.unmade (Or.inr entry)
    exact k.quiet rfl null.symm (fun p => by simp [Server.log, lifeOfAppend, Life.after]) (by simp [Makes, failed])
  · have absent := k.absent.mpr (sound.unmade (Or.inr entry))
    have running : ¬ Shut past := by
      intro shut
      rw [← k.gone, absent] at shut
      cases shut
    refine ⟨?_,?_,?_,?_,?_⟩
    · simpa using k.published
    · exact ⟨fun _ => ⟨.new calls,by simp,calls,rfl,made⟩,fun _ => rfl⟩
    · simp [Server.log, lifeOfAppend, Life.after]
    · rw [shutSnoc]
      simp [Server.log, lifeOfAppend, Life.after, running]
    · simpa [Server.log, lifeOfAppend, Life.after] using k.null

theorem serviceDestroy (k : ServiceKnown past s) (sound : Sound s) (h : step s .destroy = some t) :
    ServiceKnown (past ++ [.destroy]) t := by
  have unmade (null : s.rpcsvc.priv = .null) : ¬ ∃ made ∈ past, Makes made := by
    rw [← k.stored, null]
    simp
  have none (null : s.rpcsvc.priv = .null) (svc : t.rpcsvc.svc = s.rpcsvc.svc)
      (priv : t.rpcsvc.priv = s.rpcsvc.priv)
      (lives : ∀ p, lifeOf (.service p) t.trace = lifeOf (.service p) s.trace) :
      ServiceKnown (past ++ [.destroy]) t := by
    refine ⟨?_,?_,?_,?_,?_⟩
    · rw [svc, k.published]
      simp
    · rw [priv, k.stored]
      simp [or_and_right, exists_or, Makes]
    · rw [lives, priv]
      exact k.absent
    · rw [lives, k.gone, shutSnoc]
      simp [unmade null]
    · rw [lives]
      exact k.null
  obtain ⟨here,⟨absent,rfl⟩ | ⟨there,rfl⟩⟩ := destroyInv h
  · have fresh : t.thread = Option.none := by
      apply Classical.byContradiction
      intro born
      exact absurd (absent.symm.trans (sound.manned born).2) (by simp)
    exact none (sound.unmade (Or.inl fresh)) rfl rfl (fun _ => rfl)
  · have d := destroySpec s
    cases priv : s.rpcsvc.priv with
    | null =>
      refine none priv d.svc d.priv (fun p => ?_)
      rw [d.trace, lifeOfAppend]
      cases ready : s.rpcsvc.initialized <;> simp [destroyOps, priv, ready, Life.after]
    | svc =>
      refine k.shut d.svc d.priv priv ?_ ?_ (Or.inr rfl)
      · rw [d.trace, lifeOfAppend]
        cases ready : s.rpcsvc.initialized <;> simp [destroyOps, priv, ready, Life.after]
      · rw [d.trace, lifeOfAppend]
        cases ready : s.rpcsvc.initialized <;> simp [destroyOps, priv, ready, Life.after]

theorem serviceStart {create : Bool} (sound : Sound s) (k : ServiceKnown past s)
    (h : step s (.start create) = some t) : ServiceKnown (past ++ [.start create]) t := by
  obtain ⟨here,⟨_,rfl⟩ | ⟨_,_,rfl⟩ | ⟨there,_,rfl⟩⟩ := startInv h
  · exact k.quiet rfl rfl (fun _ => rfl) (by simp [Makes])
  · exact k.quiet rfl rfl (fun _ => rfl) (by simp [Makes])
  · have d := destroySpec s
    have null := sound.unmade (Or.inl (sound.fresh (by simp [here])))
    refine k.quiet d.svc d.priv (fun p => ?_) (by simp [Makes])
    show lifeOf _ (vmpRpcsvcDestroy s).trace = _
    rw [d.trace, lifeOfAppend]
    simp [destroyOps, null, sound.armed here there, Life.after]

theorem serviceStep (sound : Sound s) (k : ServiceKnown past s) (h : step s e = some t) :
    ServiceKnown (past ++ [e]) t := by
  cases e with
  | create calloc =>
    obtain ⟨begin,⟨rfl,_⟩ | ⟨_,rfl⟩⟩ := createInv h
    · exact k.quiet rfl rfl (fun _ => rfl) (by simp [Makes])
    · have null := sound.unmade (Or.inl (sound.fresh (by simp [begin])))
      exact k.quiet (sound.unpublished null).symm null.symm
        (fun p => by simp [Server.log, lifeOfAppend, Life.after]) (by simp [Makes])
  | start create => exact serviceStart sound k h
  | new calls => exact serviceNew sound k h
  | publish =>
    obtain ⟨made,rfl⟩ := publishInv h
    have priv := sound.between made
    refine ⟨?_,?_,?_,?_,?_⟩
    · simp [priv]
    · simpa [or_and_right, exists_or, Makes] using k.stored
    · simpa [Server.log, lifeOfAppend, Life.after] using k.absent
    · rw [shutSnoc]
      simpa [Server.log, lifeOfAppend, Life.after] using k.gone
    · simpa [Server.log, lifeOfAppend, Life.after] using k.null
  | run =>
    obtain ⟨_,rfl⟩ := runInv h
    exact k.quiet rfl rfl (fun p => by simp [Server.log, lifeOfAppend, Life.after]) (by simp [Makes])
  | register task =>
    obtain ⟨_,rfl⟩ := registerInv h
    exact k.quiet rfl rfl (fun p => by simp [Server.log, lifeOfAppend, Life.after]) (by simp [Makes])
  | acceptError =>
    obtain ⟨live,rfl⟩ := acceptErrorInv h
    have made : s.rpcsvc.priv = .svc := by
      cases there : s.rpcsvc.priv with
      | svc => rfl
      | null => exact absurd (live.symm.trans (k.absent.mpr there)) (by simp)
    refine k.shut rfl rfl made ?_ ?_ (Or.inl rfl)
    · simp [Server.log, lifeOfAppend, Life.after]
    · simp [Server.log, lifeOfAppend, Life.after]
  | returned =>
    obtain ⟨_,rfl⟩ := returnedInv h
    exact k.quiet rfl rfl (fun _ => rfl) (by simp [Makes])
  | destroy => exact serviceDestroy k sound h
  | joined =>
    obtain ⟨_,_,rfl⟩ := joinedInv h
    exact k.quiet rfl rfl (fun p => by simp [Server.log, lifeOfAppend, Life.after]) (by simp [Makes])

theorem ServiceKnown.live (k : ServiceKnown past s) :
    lifeOf (.service .svc) s.trace = .live ↔ s.rpcsvc.priv = .svc ∧ ¬ Shut past := by
  rw [← k.gone]
  have absent := k.absent
  cases life : lifeOf (.service Ptr.svc) s.trace <;> cases there : s.rpcsvc.priv <;>
    simp [life, there] at absent ⊢

theorem ServiceKnown.registered (sound : Sound s) (k : ServiceKnown past s) :
    lifeOf (.service s.rpcsvc.svc) s.trace = .live ↔ .publish ∈ past ∧ ¬ Shut past := by
  cases there : s.rpcsvc.svc with
  | svc =>
    rw [k.live, ← k.published]
    simp [there, sound.order there]
  | null =>
    rw [k.null, ← k.published]
    simp [there]

end Service

section Handle
variable {past : List Event} {s t : Server} {e : Event}

theorem HandleKnown.quiet (k : HandleKnown past s) (ptr : t.ptr = s.ptr) (core : t.core = s.core)
    (ready : t.rpcsvc.initialized = s.rpcsvc.initialized) (life : lifeOf .handle t.trace = lifeOf .handle s.trace)
    (other : e ≠ .create true ∧ e ≠ .destroy ∧ e ≠ .joined) : HandleKnown (past ++ [e]) t := by
  have freed : Freed (past ++ [e]) ↔ Freed past := freedSnoc other
  obtain ⟨notCreate,notDestroy,notJoined⟩ := other
  refine ⟨?_,?_,?_,?_,?_,?_⟩
  · rw [ptr, k.created]
    simp [Ne.symm notCreate]
  · rw [life, ptr]
    exact k.absent
  · rw [life, freed]
    exact k.gone
  · rw [core]
    intro early
    simpa [Ne.symm notJoined] using k.early early
  · rw [core]
    intro early
    simpa [Ne.symm notDestroy] using k.none early
  · rw [core, ptr, freed, ready]
    intro there started alive
    rw [k.stopped there started alive]
    simp [Ne.symm notDestroy]

theorem handleCreate {calloc : Bool} (k : HandleKnown past s) (h : step s (.create calloc) = some t) :
    HandleKnown (past ++ [.create calloc]) t := by
  obtain ⟨begin,⟨rfl,rfl⟩ | ⟨rfl,rfl⟩⟩ := createInv h
  · have freed : Freed (past ++ [.create false]) ↔ Freed past := freedSnoc (by simp)
    have early := k.early (Or.inl begin)
    have none := k.none (by simp [begin])
    refine ⟨?_,k.absent,?_,?_,?_,by simp⟩
    · simpa using k.created
    · rw [freed]
      exact k.gone
    · simpa using early
    · simpa using none
  · have early := k.early (Or.inl begin)
    have none := k.none (by simp [begin])
    have count : past.count .destroy = 0 := List.count_eq_zero.mpr none
    refine ⟨by simp,?_,?_,?_,?_,by simp⟩
    · simp [Server.log, lifeOfAppend, Life.after]
    · simp [Server.log, lifeOfAppend, Life.after, Freed, early, count]
    · simpa using early
    · simpa using none

theorem handleStart {create : Bool} (sound : Sound s) (k : HandleKnown past s)
    (h : step s (.start create) = some t) : HandleKnown (past ++ [.start create]) t := by
  have freed : Freed (past ++ [.start create]) ↔ Freed past := freedSnoc (by simp)
  obtain ⟨here,how⟩ := startInv h
  have none := k.none (by simp [here])
  have gone : lifeOf .handle s.trace = .gone ↔ Freed (past ++ [.start create]) := by
    rw [freed]
    exact k.gone
  have created : s.ptr = true ↔ .create true ∈ past ++ [.start create] := by simpa using k.created
  rcases how with ⟨absent,rfl⟩ | ⟨there,_,rfl⟩ | ⟨there,_,rfl⟩
  · refine ⟨created,k.absent,gone,by simp,by simp,?_⟩
    intro there
    exact absurd (absent.symm.trans there) (by simp)
  · refine ⟨created,k.absent,gone,by simp,by simp,?_⟩
    intro _ _ _
    simp [sound.armed here there, none]
  · have d := destroySpec s
    have null := sound.unmade (Or.inl (sound.fresh (by simp [here])))
    have life : lifeOf .handle (vmpRpcsvcDestroy s).trace = lifeOf .handle s.trace := by
      rw [d.trace, lifeOfAppend]
      simp [destroyOps, null, sound.armed here there, Life.after]
    refine ⟨?_,?_,?_,by simp,?_,by simp⟩
    · exact (congrArg (· = true) d.ptr).to_iff.trans created
    · show lifeOf .handle (vmpRpcsvcDestroy s).trace = _ ↔ (vmpRpcsvcDestroy s).ptr = false
      rw [life, d.ptr]
      exact k.absent
    · show lifeOf .handle (vmpRpcsvcDestroy s).trace = _ ↔ _
      rw [life]
      exact gone
    · intro _
      simpa using none

theorem handleDestroy (k : HandleKnown past s) (h : step s .destroy = some t) :
    HandleKnown (past ++ [.destroy]) t := by
  have count : (past ++ [Event.destroy]).count .destroy = past.count .destroy + 1 := by simp
  have members : (Event.joined ∈ past ++ [.destroy] ↔ .joined ∈ past) ∧
      (Event.create true ∈ past ++ [.destroy] ↔ .create true ∈ past) := by simp
  have kept (freed : Freed past) : Freed (past ++ [.destroy]) := by
    rcases freed with over_ | ⟨created,twice⟩
    · exact Or.inl (members.1.mpr over_)
    · exact Or.inr ⟨members.2.mpr created,by omega⟩
  obtain ⟨here,⟨absent,rfl⟩ | ⟨there,rfl⟩⟩ := destroyInv h
  · have uncreated : .create true ∉ past := by
      rw [← k.created, absent]
      simp
    refine ⟨k.created.trans members.2.symm,k.absent,?_,by simp [here],by simp [here],?_⟩
    · rw [k.gone]
      simp [Freed, uncreated]
    · intro there
      exact absurd (absent.symm.trans there) (by simp)
  · have d := destroySpec s
    have created := k.created.mp there
    have life : lifeOf .handle (vmpRpcsvcDestroy s).trace =
        if s.rpcsvc.initialized then lifeOf .handle s.trace else .gone := by
      rw [d.trace, lifeOfAppend]
      cases priv : s.rpcsvc.priv <;> cases ready : s.rpcsvc.initialized <;>
        simp [destroyOps, priv, ready, Life.after]
    have freed : Freed (past ++ [.destroy]) ↔ s.rpcsvc.initialized = false ∨ Freed past := by
      by_cases before : Freed past
      · exact ⟨fun _ => Or.inr before,fun _ => kept before⟩
      · rw [k.stopped there here before]
        have unjoined : .joined ∉ past := fun over_ => before (Or.inl over_)
        simp only [Freed, members, unjoined, count, created, false_or, true_and]
        have seen : Event.destroy ∈ past ↔ 0 < past.count .destroy := List.count_pos_iff.symm
        rw [seen]
        constructor
        · intro twice
          exact Or.inl (by omega)
        · intro first
          rcases first with once | twice
          · omega
          · omega
    refine ⟨?_,?_,?_,?_,?_,?_⟩
    · rw [d.ptr, members.2]
      exact k.created
    · have present : lifeOf .handle s.trace ≠ .absent := by
        rw [ne_eq, k.absent, there]
        simp
      rw [life, d.ptr, there]
      split
      · simp [present]
      · simp
    · rw [life, freed]
      cases s.rpcsvc.initialized with
      | true => simpa using k.gone
      | false => simp
    · simp [d.core, here]
    · simp [d.core, here]
    · simp [d.stopped]

theorem handleStep (sound : Sound s) (k : HandleKnown past s) (h : step s e = some t) :
    HandleKnown (past ++ [e]) t := by
  cases e with
  | create calloc => exact handleCreate k h
  | start create => exact handleStart sound k h
  | new calls =>
    obtain ⟨_,⟨_,rfl⟩ | ⟨_,rfl⟩⟩ := newInv h
    · exact k.quiet rfl rfl rfl (by simp [Server.log, lifeOfAppend, Life.after]) (by simp)
    · exact k.quiet rfl rfl rfl (by simp [Server.log, lifeOfAppend, Life.after]) (by simp)
  | publish =>
    obtain ⟨_,rfl⟩ := publishInv h
    exact k.quiet rfl rfl rfl (by simp [Server.log, lifeOfAppend, Life.after]) (by simp)
  | run =>
    obtain ⟨_,rfl⟩ := runInv h
    exact k.quiet rfl rfl rfl (by simp [Server.log, lifeOfAppend, Life.after]) (by simp)
  | register task =>
    obtain ⟨_,rfl⟩ := registerInv h
    exact k.quiet rfl rfl rfl (by simp [Server.log, lifeOfAppend, Life.after]) (by simp)
  | acceptError =>
    obtain ⟨_,rfl⟩ := acceptErrorInv h
    exact k.quiet rfl rfl rfl (by simp [Server.log, lifeOfAppend, Life.after]) (by simp)
  | returned =>
    obtain ⟨_,rfl⟩ := returnedInv h
    exact k.quiet rfl rfl rfl rfl (by simp)
  | destroy => exact handleDestroy k h
  | joined =>
    obtain ⟨waiting,_,rfl⟩ := joinedInv h
    have there := sound.waited waiting
    have freed : Freed (past ++ [.joined]) := Or.inl (by simp)
    refine ⟨?_,?_,?_,by simp,by simp,fun _ _ alive => absurd freed alive⟩
    · simpa [Server.log] using k.created
    · simp [Server.log, lifeOfAppend, Life.after, there]
    · simp [Server.log, lifeOfAppend, Life.after, freed]

theorem HandleKnown.live (k : HandleKnown past s) (there : s.ptr = true) :
    lifeOf .handle s.trace = .live ↔ ¬ Freed past := by
  have absent := k.absent
  rw [← k.gone]
  cases life : lifeOf Object.handle s.trace <;> simp [life, there] at absent ⊢

end Handle

structure Known (past : List Event) (s : Server) : Prop where
  sound : Sound s
  service : ServiceKnown past s
  handle : HandleKnown past s

theorem knownStep {past : List Event} {s t : Server} {e : Event} (k : Known past s) (h : step s e = some t) :
    Known (past ++ [e]) t :=
  ⟨soundStep k.sound h,serviceStep k.sound k.service h,handleStep k.sound k.handle h⟩

section Orders
variable {past : List Event} {s t : Server}

end Orders

def newSucceeds : NewCalls := ⟨true,true,true⟩

-- a second destroy frees what the thread stores into, and a join leaves a freed `vmp_rpcsvc_t` to a task
example : ∃ s, system.run .initial [.create true,.start true,.destroy,.destroy,.new newSucceeds] = some s ∧
    ¬ Orderly s := ⟨_,rfl,by decide⟩
example : ∃ s, system.run .initial [.create true,.start true,.destroy,.new newSucceeds,.publish,.run,.returned,
    .joined,.register .demo] = some s ∧ ¬ Orderly s := ⟨_,rfl,by decide⟩

end VmpRl.ServerHandle
