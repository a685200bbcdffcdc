import VmpRl.Base.Lifecycle
import VmpRl.Base.Transition

/-! The life of one task of the core: `load_*_create`, `load_*_start`, `load_*_stop` and
`load_*_done`, which are the same text for the four tasks, their threads, and the calls that
`load_core_thread` issues. Every touch of the task object and of its thread is in the trace. -/
namespace VmpRl.Tasks
open Lifecycle Transition

inductive LoadTask where
  | child
  | demo
  | vmon
  | nodeState
  deriving DecidableEq, Repr

inductive Obj where
  | priv
  | thread
  deriving DecidableEq, Repr

structure PrivInfo where
  cond : Int
  initialized : Bool
  deriving DecidableEq, Repr

inductive ThreadPc where
  | entry
  | test
  | body
  | leaving
  | ended
  deriving DecidableEq, Repr

inductive CorePc where
  | begin
  | created
  | started
  | joining
  | over
  deriving DecidableEq, Repr

/- `ptr` says whether the pointer the core keeps is not NULL; `thread` is `none` while no
`pthread_create` has succeeded. -/
structure World where
  core : CorePc
  ptr : Bool
  priv : PrivInfo
  thread : Option ThreadPc
  trace : List (Op Obj)
  deriving DecidableEq, Repr

def World.initial : World := ⟨.begin,false,⟨0,false⟩,none,[]⟩

def World.log (w : World) (ops : List (Op Obj)) : World := {w with trace := w.trace ++ ops}

@[simp] theorem logTrace (w : World) (ops : List (Op Obj)) : (w.log ops).trace = w.trace ++ ops := rfl
@[simp] theorem logCore (w : World) (ops : List (Op Obj)) : (w.log ops).core = w.core := rfl
@[simp] theorem logPtr (w : World) (ops : List (Op Obj)) : (w.log ops).ptr = w.ptr := rfl
@[simp] theorem logPriv (w : World) (ops : List (Op Obj)) : (w.log ops).priv = w.priv := rfl
@[simp] theorem logThread (w : World) (ops : List (Op Obj)) : (w.log ops).thread = w.thread := rfl

structure StartCalls where
  mutexattrInit : Bool
  mutexattrSettype : Bool
  mutexInit : Bool
  create : Bool
  deriving DecidableEq, Repr

def loadCreate (calloc : Bool) (w : World) : World :=
  if calloc then {w with ptr := true, priv := ⟨1,true⟩}.log [.acquire .priv,.use .priv] else w

def loadDestroy (w : World) : World := w.log [.use .priv,.release .priv]

def loadStop (w : World) : Bool × World :=
  if w.priv.initialized then
    (w.thread.isSome,{w with priv := ⟨0,false⟩}.log [.use .priv,.release .thread])
  else (false,{w with priv := ⟨0,false⟩}.log [.use .priv])

def loadDone (w : World) : World :=
  let (waits, w) := loadStop w
  if waits then {w with core := .joining} else loadDestroy {w with core := .over}

/- Every failure but that of `pthread_create` leads to `load_*_done`. -/
def loadStart (calls : StartCalls) (w : World) : World :=
  if calls.mutexattrInit && calls.mutexattrSettype then
    let w := w.log [.use .priv]
    if calls.mutexInit then
      if calls.create then {w with thread := some .entry}.log [.acquire .thread,.use .priv] else w
    else loadDone w
  else loadDone w

inductive Event where
  | create (calloc : Bool)
  | start (calls : StartCalls)
  | thread
  | watch
  | done
  | joined
  deriving DecidableEq, Repr

def closing : LoadTask → List (Op Obj)
  | .child => [.use .priv]
  | .demo | .vmon | .nodeState => []

def threadStep (task : LoadTask) (w : World) : Option World :=
  match w.thread with
  | some .entry => some ({w with thread := some .test}.log [.use .priv])
  | some .test =>
    some ({w with thread := some (if w.priv.cond = 0 then .leaving else .body)}.log [.use .priv])
  | some .body => some {w with thread := some .test}
  | some .leaving => some ({w with thread := some .ended}.log (closing task))
  | _ => none

/- The result of `load_*_start` is ignored, and after `load_*_done` the pointer is cleared. In the
body of its loop the child's thread looks at its object for as long as it watches. -/
def step (task : LoadTask) (w : World) : Event → Option World
  | .create calloc => if w.core = .begin then some {loadCreate calloc w with core := .created} else none
  | .start calls => if w.core = .created then
      some {(if w.ptr then loadStart calls w else w) with core := .started}
    else none
  | .thread => threadStep task w
  | .watch => if task = .child ∧ w.thread = some .body then some (w.log [.use .priv]) else none
  | .done => if w.core = .started then
      if w.ptr then
        let after := loadDone w
        some {after with ptr := after.core = .joining}
      else some {w with core := .over}
    else none
  | .joined => if w.core = .joining ∧ w.thread = some .ended then
      some {loadDestroy w with core := .over, ptr := false}
    else none

def system (task : LoadTask) : System World Event := ⟨(· = .initial),step task⟩

def Smooth (w : World) : Event → Prop
  | .start calls => w.ptr = true →
      calls.mutexattrInit = true ∧ calls.mutexattrSettype = true ∧ calls.mutexInit = true
  | .done => w.ptr = true → w.thread ≠ none
  | _ => True

def Orderly (w : World) : Prop := Disciplined w.trace

structure Kept (w : World) : Prop where
  orderly : Disciplined w.trace
  fresh : w.core = .begin → w.ptr = false ∧ lifeOf .priv w.trace = .absent
  alive : w.ptr = true → lifeOf .priv w.trace = .live
  unborn : w.thread = none → lifeOf .thread w.trace = .absent
  running : w.thread ≠ none → w.core = .started → lifeOf .thread w.trace = .live
  owned : w.thread ≠ none → w.thread ≠ some .ended → w.ptr = true
  idle : w.core = .begin ∨ w.core = .created → w.thread = none
  armed : w.ptr = true → w.core = .created ∨ w.core = .started → w.priv.initialized = true
  held : w.core = .joining → w.ptr = true

theorem createInv {task : LoadTask} {w t : World} {calloc : Bool} (h : step task w (.create calloc) = some t) :
    w.core = .begin ∧ ((calloc = true ∧
        t = {w with core := .created, ptr := true, priv := ⟨1,true⟩}.log [.acquire .priv,.use .priv]) ∨
      (calloc = false ∧ t = {w with core := .created})) := by
  obtain ⟨here,rfl⟩ := guardTaken h
  cases calloc with
  | true => exact ⟨here,Or.inl ⟨rfl,rfl⟩⟩
  | false => exact ⟨here,Or.inr ⟨rfl,rfl⟩⟩

theorem startTaken {task : LoadTask} {w t : World} {calls : StartCalls}
    (h : step task w (.start calls) = some t) :
    w.core = .created ∧ (w.ptr = true → t.trace = (loadStart calls w).trace) := by
  obtain ⟨here,rfl⟩ := guardTaken h
  refine ⟨here,?_⟩
  intro ptr
  simp [ptr]

theorem startInv {task : LoadTask} {w t : World} {calls : StartCalls}
    (h : step task w (.start calls) = some t) (smooth : Smooth w (.start calls)) :
    w.core = .created ∧ ((w.ptr = false ∧ t = {w with core := .started}) ∨
      (w.ptr = true ∧ calls.create = true ∧ t = ({w with core := .started, thread := some .entry}.log
        [.use .priv]).log [.acquire .thread,.use .priv]) ∨
      (w.ptr = true ∧ calls.create = false ∧ t = {w with core := .started}.log [.use .priv])) := by
  obtain ⟨core,ptr,priv,thread,trace⟩ := w
  obtain ⟨attr,settype,mutex,create⟩ := calls
  obtain ⟨here,rfl⟩ := guardTaken h
  refine ⟨here,?_⟩
  cases ptr with
  | false => exact Or.inl ⟨rfl,rfl⟩
  | true =>
    obtain ⟨rfl,rfl,rfl⟩ := smooth rfl
    cases create with
    | true => exact Or.inr (Or.inl ⟨rfl,rfl,rfl⟩)
    | false => exact Or.inr (Or.inr ⟨rfl,rfl,rfl⟩)

theorem threadInv {task : LoadTask} {w t : World} (h : threadStep task w = some t) :
    ∃ pc next ops, w.thread = some pc ∧ pc ≠ .ended ∧ (ops = [] ∨ ops = [.use .priv]) ∧
      t = {w with thread := some next}.log ops := by
  unfold threadStep at h
  split at h
  · rename_i pc
    exact ⟨.entry,_,_,pc,by simp,Or.inr rfl,(Option.some.inj h).symm⟩
  · rename_i pc
    exact ⟨.test,_,_,pc,by simp,Or.inr rfl,(Option.some.inj h).symm⟩
  · rename_i pc
    refine ⟨.body,.test,[],pc,by simp,Or.inl rfl,?_⟩
    simpa [World.log] using (Option.some.inj h).symm
  · rename_i pc
    refine ⟨.leaving,.ended,_,pc,by simp,?_,(Option.some.inj h).symm⟩
    cases task with
    | child => exact Or.inr rfl
    | demo | vmon | nodeState => exact Or.inl rfl
  · cases h

theorem watchInv {task : LoadTask} {w t : World} (h : step task w .watch = some t) :
    w.thread = some .body ∧ t = w.log [.use .priv] := by
  obtain ⟨⟨_,body⟩,same⟩ := guardTaken h
  exact ⟨body,same⟩

theorem doneTaken {task : LoadTask} {w t : World} (h : step task w .done = some t) :
    w.core = .started :=
  (Option.ite_none_right_eq_some.mp h).1

theorem doneInv {task : LoadTask} {w t : World} (h : step task w .done = some t)
    (armed : w.ptr = true → w.priv.initialized = true) :
    w.core = .started ∧ ((w.ptr = false ∧ t = {w with core := .over}) ∨
      (w.ptr = true ∧ w.thread ≠ none ∧
        t = {w with core := .joining, priv := ⟨0,false⟩}.log [.use .priv,.release .thread]) ∨
      (w.ptr = true ∧ w.thread = none ∧ t = ({w with core := .over, ptr := false, priv := ⟨0,false⟩}.log
        [.use .priv,.release .thread]).log [.use .priv,.release .priv])) := by
  obtain ⟨core,ptr,⟨cond,initialized⟩,thread,trace⟩ := w
  simp only [step] at h
  split at h
  · rename_i here
    refine ⟨here,?_⟩
    cases ptr with
    | false => exact Or.inl ⟨rfl,(Option.some.inj h).symm⟩
    | true =>
      obtain rfl : initialized = true := armed rfl
      cases thread with
      | none => exact Or.inr (Or.inr ⟨rfl,rfl,(Option.some.inj h).symm⟩)
      | some pc => exact Or.inr (Or.inl ⟨rfl,by simp,(Option.some.inj h).symm⟩)
  · cases h

theorem joinedInv {task : LoadTask} {w t : World} (h : step task w .joined = some t) :
    w.core = .joining ∧ w.thread = some .ended ∧
      t = {w with core := .over, ptr := false}.log [.use .priv,.release .priv] := by
  obtain ⟨⟨joining,ended⟩,same⟩ := guardTaken h
  exact ⟨joining,ended,same⟩

theorem initialKept : Kept .initial := by
  refine ⟨trivial,?_,?_,?_,?_,?_,?_,?_,?_⟩ <;> simp [World.initial, lifeOf]

theorem Kept.looked {w : World} (k : Kept w) (there : w.ptr = true) {thread : Option ThreadPc}
    {ops : List (Op Obj)} (uses : ops = [] ∨ ops = [.use .priv]) (born : w.thread ≠ none)
    (stays : thread ≠ none) : Kept ({w with thread := thread}.log ops) := by
  have live := k.alive there
  have same : ∀ o, lifeOf o (w.trace ++ ops) = lifeOf o w.trace := by
    intro o
    apply usesKept
    rcases uses with rfl | rfl <;> simp
  refine ⟨?_,?_,?_,?_,?_,?_,?_,?_,?_⟩
  · refine (disciplinedAppend _ _).mpr ⟨k.orderly,?_⟩
    rcases uses with rfl | rfl
    · trivial
    · exact ⟨live,trivial⟩
  · intro begin
    exact absurd (k.idle (Or.inl begin)) born
  · intro ptr
    exact (same .priv).trans (k.alive ptr)
  · intro unborn
    exact absurd unborn stays
  · intro _ started
    exact (same .thread).trans (k.running born started)
  · exact fun _ _ => there
  · intro early
    exact absurd (k.idle early) born
  · exact k.armed
  · exact k.held

theorem createKept {task : LoadTask} {w t : World} {calloc : Bool} (k : Kept w)
    (h : step task w (.create calloc) = some t) : Kept t := by
  obtain ⟨begin,⟨_,rfl⟩ | ⟨_,rfl⟩⟩ := createInv h
  · obtain ⟨_,absent⟩ := k.fresh begin
    have unborn := k.unborn (k.idle (Or.inl begin))
    refine ⟨?_,by simp,?_,?_,?_,by simp,fun _ => k.idle (Or.inl begin),by simp,by simp⟩
    · exact (disciplinedAppend _ _).mpr ⟨k.orderly,absent,by simp [Fits, Life.after],trivial⟩
    · simp [lifeOfAppend, Life.after]
    · intro _
      simpa [lifeOfAppend, Life.after] using unborn
    · simp
  · obtain ⟨null,_⟩ := k.fresh begin
    have none := k.idle (Or.inl begin)
    refine ⟨k.orderly,by simp,k.alive,k.unborn,by simp,k.owned,fun _ => none,?_,by simp⟩
    intro ptr
    rw [null] at ptr
    cases ptr

theorem startKept {task : LoadTask} {w t : World} {calls : StartCalls} (k : Kept w)
    (h : step task w (.start calls) = some t) (smooth : Smooth w (.start calls)) : Kept t := by
  obtain ⟨here,⟨null,rfl⟩ | ⟨ptr,_,rfl⟩ | ⟨ptr,_,rfl⟩⟩ := startInv h smooth
  · have none := k.idle (Or.inr here)
    refine ⟨k.orderly,by simp,k.alive,k.unborn,fun born => absurd none born,k.owned,by simp,?_,by simp⟩
    intro ptr
    rw [null] at ptr
    cases ptr
  · have live := k.alive ptr
    have unborn := k.unborn (k.idle (Or.inr here))
    refine ⟨?_,by simp,?_,by simp,?_,fun _ _ => ptr,by simp,fun _ _ => k.armed ptr (Or.inl here),by simp⟩
    · rw [logTrace, logTrace, List.append_assoc]
      refine (disciplinedAppend _ _).mpr ⟨k.orderly,live,?_,?_,trivial⟩
      · simpa [Fits, Life.after] using unborn
      · simpa [Fits, Life.after] using live
    · intro _
      simpa [lifeOfAppend, Life.after] using live
    · intro _ _
      simp [lifeOfAppend, Life.after]
  · have none := k.idle (Or.inr here)
    have live := k.alive ptr
    refine ⟨?_,by simp,?_,?_,fun born => absurd none born,fun _ _ => ptr,by simp,
      fun _ _ => k.armed ptr (Or.inl here),by simp⟩
    · exact (disciplinedAppend _ _).mpr ⟨k.orderly,live,trivial⟩
    · intro _
      simpa [lifeOfAppend, Life.after] using live
    · intro _
      simpa [lifeOfAppend, Life.after] using k.unborn none

theorem doneKept {task : LoadTask} {w t : World} (k : Kept w) (h : step task w .done = some t)
    (smooth : Smooth w .done) : Kept t := by
  have started := doneTaken h
  obtain ⟨_,⟨null,rfl⟩ | ⟨ptr,born,rfl⟩ | ⟨ptr,none,_⟩⟩ :=
    doneInv h (fun ptr => k.armed ptr (Or.inr started))
  · exact ⟨k.orderly,by simp,k.alive,k.unborn,by simp,k.owned,by simp,by simp,by simp⟩
  · have live := k.alive ptr
    have running := k.running born started
    refine ⟨?_,by simp,?_,fun none => absurd none born,by simp,fun _ _ => ptr,by simp,by simp,fun _ => ptr⟩
    · refine (disciplinedAppend _ _).mpr ⟨k.orderly,live,?_,trivial⟩
      simpa [Fits, Life.after] using running
    · intro _
      simpa [lifeOfAppend, Life.after] using live
  · exact absurd none (smooth ptr)

theorem joinedKept {task : LoadTask} {w t : World} (k : Kept w) (h : step task w .joined = some t) : Kept t := by
  obtain ⟨joining,ended,rfl⟩ := joinedInv h
  have live := k.alive (k.held joining)
  refine ⟨?_,by simp,by simp,?_,by simp,fun _ runs => absurd ended runs,by simp,by simp,by simp⟩
  · refine (disciplinedAppend _ _).mpr ⟨k.orderly,live,?_,trivial⟩
    simpa [Fits, Life.after] using live
  · intro none
    exact absurd (ended.symm.trans none) (by simp)

theorem keptStep {task : LoadTask} {w t : World} {e : Event} (k : Kept w) (h : step task w e = some t)
    (smooth : Smooth w e) : Kept t := by
  cases e with
  | create calloc => exact createKept k h
  | start calls => exact startKept k h smooth
  | thread =>
    obtain ⟨pc,next,ops,here,runs,uses,rfl⟩ := threadInv h
    have born : w.thread ≠ none := by simp [here]
    have ptr := k.owned born (by simpa [here] using runs)
    exact k.looked ptr uses born (by simp)
  | watch =>
    obtain ⟨here,rfl⟩ := watchInv h
    have born : w.thread ≠ none := by simp [here]
    have ptr := k.owned born (by simp [here])
    exact k.looked ptr (Or.inr rfl) born born
  | done => exact doneKept k h smooth
  | joined => exact joinedKept k h

theorem strayJoin {trace ops : List (Op Obj)} (absent : lifeOf .thread trace = .absent)
    (orderly : Disciplined (trace ++ [Op.use Obj.priv,.release .thread] ++ ops)) : False := by
  have fits := ((disciplinedAppend _ _).mp (disciplinedPrefix orderly)).2.2.1
  have live : lifeOf .thread trace = .live := by simpa [Fits, Life.after] using fits
  rw [absent] at live
  cases live

theorem failedStart {w : World} {calls : StartCalls} (armed : w.priv.initialized = true)
    (none : w.thread = none) (failed : ¬ (calls.mutexattrInit = true ∧ calls.mutexattrSettype = true ∧
      calls.mutexInit = true)) :
    ∃ before after, (loadStart calls w).trace = w.trace ++ before ++
        [Op.use Obj.priv,.release .thread] ++ after ∧ (before = [] ∨ before = [.use .priv]) := by
  obtain ⟨core,ptr,⟨cond,initialized⟩,thread,trace⟩ := w
  obtain ⟨attr,settype,mutex,create⟩ := calls
  obtain rfl : initialized = true := armed
  obtain rfl : thread = .none := none
  cases attr with
  | false => exact ⟨[],[.use .priv,.release .priv],by rw [List.append_nil]; rfl,Or.inl rfl⟩
  | true => cases settype with
    | false => exact ⟨[],[.use .priv,.release .priv],by rw [List.append_nil]; rfl,Or.inl rfl⟩
    | true => cases mutex with
      | false => exact ⟨[.use .priv],[.use .priv,.release .priv],rfl,Or.inr rfl⟩
      | true => exact absurd ⟨rfl,rfl,rfl⟩ failed

theorem roughShows {task : LoadTask} {w t : World} {e : Event} (k : Kept w) (h : step task w e = some t)
    (orderly : Orderly t) : Smooth w e := by
  cases e with
  | start calls =>
    intro ptr
    obtain ⟨here,made⟩ := startTaken h
    have none := k.idle (Or.inr here)
    apply Classical.byContradiction
    intro failed
    obtain ⟨before,after,trace,short⟩ := failedStart (k.armed ptr (Or.inl here)) none failed
    rw [Orderly, made ptr, trace] at orderly
    apply strayJoin _ orderly
    rcases short with rfl | rfl
    · simpa using k.unborn none
    · simpa [lifeOfAppend, Life.after] using k.unborn none
  | done =>
    intro ptr none
    have started := doneTaken h
    obtain ⟨_,⟨null,_⟩ | ⟨_,born,_⟩ | ⟨_,_,rfl⟩⟩ := doneInv h (fun ptr => k.armed ptr (Or.inr started))
    · rw [ptr] at null
      cases null
    · exact born none
    · exact strayJoin (k.unborn none) orderly
  | create | thread | watch | joined => trivial

/- A task's thread and object are treated as they should be all along a run exactly when the mutex
calls of its start succeed and its done finds a thread that was created. -/
theorem taskLife (task : LoadTask) {events : List Event} {w : World}
    (ran : (system task).run .initial events = some w) :
    (system task).AllStates Orderly .initial events ↔ (system task).AllSteps Smooth .initial events :=
  (system task).exactCondition (fun _ k => k.orderly) (fun _ _ _ k h smooth => keptStep k h smooth)
    (fun _ _ _ k h orderly => roughShows k h orderly) initialKept ran

def allSucceed : StartCalls := ⟨true,true,true,true⟩

theorem demoLife : (system .demo).AllStates Orderly .initial
    [.create true,.start allSucceed,.thread,.done,.thread,.thread,.joined] := by
  have ran : (system .demo).run .initial
      [.create true,.start allSucceed,.thread,.done,.thread,.thread,.joined] = some ⟨.over,false,
        ⟨0,false⟩,some .ended,[.acquire .priv,.use .priv,.use .priv,.acquire .thread,.use .priv,
          .use .priv,.use .priv,.release .thread,.use .priv,.use .priv,.release .priv]⟩ := rfl
  apply (taskLife .demo ran).mpr
  refine ((system .demo).allStepsCons rfl).mpr ⟨trivial,?_⟩
  refine ((system .demo).allStepsCons rfl).mpr ⟨fun _ => ⟨rfl,rfl,rfl⟩,?_⟩
  refine ((system .demo).allStepsCons rfl).mpr ⟨trivial,?_⟩
  refine ((system .demo).allStepsCons rfl).mpr ⟨fun _ => Option.some_ne_none _,?_⟩
  refine ((system .demo).allStepsCons rfl).mpr ⟨trivial,?_⟩
  refine ((system .demo).allStepsCons rfl).mpr ⟨trivial,?_⟩
  exact ((system .demo).allStepsCons rfl).mpr ⟨trivial,(system .demo).allStepsNil _ _⟩

/- `pthread_create` fails and done joins nothing; `pthread_mutexattr_init` fails, and start joins
nothing and frees the object, which done uses and frees again. -/
theorem startFailures :
    (∃ w, (system .demo).run .initial [.create true,.start ⟨true,true,true,false⟩,.done] = some w ∧
      w.thread = none ∧ .release .thread ∈ w.trace ∧ ¬ Orderly w) ∧
    ∃ w, (system .demo).run .initial [.create true,.start ⟨false,true,true,true⟩,.done] = some w ∧
      w.trace.count (.release .priv) = 2 ∧ ¬ Orderly w := by
  have joined : (system .demo).run .initial [.create true,.start ⟨true,true,true,false⟩,.done] =
      some ⟨.over,false,⟨0,false⟩,none,[.acquire .priv,.use .priv,.use .priv,.use .priv,.release .thread,
        .use .priv,.release .priv]⟩ := rfl
  have freed : (system .demo).run .initial [.create true,.start ⟨false,true,true,true⟩,.done] =
      some ⟨.over,false,⟨0,false⟩,none,[.acquire .priv,.use .priv,.use .priv,.release .thread,
        .use .priv,.release .priv,.use .priv,.use .priv,.release .priv]⟩ := rfl
  refine ⟨⟨_,joined,rfl,by decide,?_⟩,⟨_,freed,by decide,?_⟩⟩
  · intro orderly
    exact absurd (show Disciplined _ from orderly) (by decide)
  · intro orderly
    exact absurd (show Disciplined _ from orderly) (by decide)

end VmpRl.Tasks
