import VmpRl.SupervisorStop
import VmpRl.Tasks

/-! The workers that a stop call waits for: the supervisor of the child, the threads of the other
tasks, and `load_core_thread` itself, which `load_core_stop` joins. -/
namespace VmpRl.Shutdown
open Transition SupervisorStop

def Awaited (w : Tasks.World) : Prop := w.core = .joining → w.priv.cond = 0 ∧ w.thread ≠ none

theorem threadKeeps {task : Tasks.LoadTask} {w t : Tasks.World} (h : Tasks.threadStep task w = some t) :
    t.core = w.core ∧ t.priv = w.priv ∧ w.thread ≠ none ∧ t.thread ≠ none := by
  obtain ⟨pc,next,ops,here,_,_,rfl⟩ := Tasks.threadInv h
  exact ⟨rfl,rfl,by simp [here],by simp⟩

theorem doneAwaited {w : Tasks.World} (joins : (Tasks.loadDone w).core = .joining) :
    (Tasks.loadDone w).priv.cond = 0 ∧ (Tasks.loadDone w).thread ≠ none := by
  obtain ⟨core,ptr,⟨cond,initialized⟩,thread,trace⟩ := w
  cases initialized with
  | false => cases joins
  | true => cases thread with
    | none => cases joins
    | some pc => exact ⟨rfl,Option.some_ne_none _⟩

theorem awaitedStep {task : Tasks.LoadTask} {w t : Tasks.World} {e : Tasks.Event} (a : Awaited w)
    (h : Tasks.step task w e = some t) : Awaited t := by
  intro joins
  cases e with
  | create calloc =>
    obtain ⟨_,⟨_,rfl⟩ | ⟨_,rfl⟩⟩ := Tasks.createInv h
    · cases joins
    · cases joins
  | start calls =>
    obtain ⟨_,rfl⟩ := guardTaken h
    cases joins
  | thread =>
    obtain ⟨core,priv,_,born⟩ := threadKeeps h
    rw [core] at joins
    exact ⟨by rw [priv]; exact (a joins).1,born⟩
  | watch =>
    obtain ⟨_,rfl⟩ := Tasks.watchInv h
    exact a joins
  | done =>
    obtain ⟨_,same⟩ := Option.ite_none_right_eq_some.mp h
    split at same
    · cases Option.some.inj same
      exact doneAwaited joins
    · cases Option.some.inj same
      cases joins
  | joined =>
    obtain ⟨_,_,rfl⟩ := Tasks.joinedInv h
    cases joins

theorem reachableAwaited {task : Tasks.LoadTask} {w : Tasks.World}
    (reached : (Tasks.system task).Reachable w) : Awaited w := by
  apply (Tasks.system task).reachableInvariant _ _ reached
  · intro w same joins
    subst same
    cases joins
  · exact fun w e t a h => awaitedStep a h

def threading (e : Tasks.Event) : Bool := e = .thread

def Ended (w : Tasks.World) : Prop := w.thread = some .ended

def left : Tasks.ThreadPc → Nat
  | .entry => 3
  | .test => 2
  | .body => 3
  | .leaving => 1
  | .ended => 0

structure Stopped (w : Tasks.World) : Prop where
  core : w.core = .joining ∨ w.core = .over
  cleared : w.priv.cond = 0
  born : w.thread ≠ none

theorem Stopped.late {w : Tasks.World} (s : Stopped w) :
    w.core ≠ .begin ∧ w.core ≠ .created ∧ w.core ≠ .started := by
  rcases s.core with core | core <;> simp [core]

theorem leftStep {task : Tasks.LoadTask} {w t : Tasks.World} {e : Tasks.Event} (s : Stopped w)
    (h : Tasks.step task w e = some t) :
    Stopped t ∧ (t.thread.map left).getD 0 + (if threading e then 1 else 0) ≤ (w.thread.map left).getD 0 := by
  cases e with
  | create calloc =>
    obtain ⟨here,_⟩ := Tasks.createInv h
    exact absurd here s.late.1
  | start calls =>
    obtain ⟨here,_⟩ := Tasks.startTaken h
    exact absurd here s.late.2.1
  | thread =>
    obtain ⟨core,priv,_,born⟩ := threadKeeps h
    refine ⟨⟨by rw [core]; exact s.core,by rw [priv]; exact s.cleared,born⟩,?_⟩
    have h' : Tasks.threadStep task w = some t := h
    unfold Tasks.threadStep at h'
    split at h'
    · rename_i here
      cases Option.some.inj h'
      simp [here, left, threading]
    · rename_i here
      cases Option.some.inj h'
      simp [here, left, threading, s.cleared]
    · rename_i here
      cases Option.some.inj h'
      simp [here, left, threading]
    · rename_i here
      cases Option.some.inj h'
      simp [here, left, threading]
    · cases h'
  | watch =>
    obtain ⟨_,rfl⟩ := Tasks.watchInv h
    exact ⟨⟨s.core,s.cleared,s.born⟩,Nat.le_refl _⟩
  | done =>
    exact absurd (Tasks.doneTaken h) s.late.2.2
  | joined =>
    obtain ⟨_,_,rfl⟩ := Tasks.joinedInv h
    exact ⟨⟨Or.inr rfl,s.cleared,s.born⟩,Nat.le_refl _⟩

theorem taskFree {task : Tasks.LoadTask} {w : Tasks.World} (s : Stopped w) (runs : ¬ Ended w) :
    ∃ e t, threading e = true ∧ Tasks.step task w e = some t := by
  obtain ⟨core,ptr,priv,thread,trace⟩ := w
  obtain ⟨pc,rfl⟩ := Option.ne_none_iff_exists'.mp s.born
  cases pc with
  | ended => exact absurd rfl runs
  | entry | test | body | leaving => exact ⟨.thread,_,rfl,rfl⟩

theorem taskLeaves {task : Tasks.LoadTask} {w : Tasks.World} (reached : (Tasks.system task).Reachable w)
    (joins : w.core = .joining) : (Tasks.system task).Leaves threading Ended w := by
  obtain ⟨cleared,born⟩ := reachableAwaited reached joins
  exact (Tasks.system task).leavesByRank Stopped (fun w => (w.thread.map left).getD 0)
    (fun _ _ _ s h => leftStep s h) (fun _ s runs => taskFree s runs) ⟨Or.inl joins,cleared,born⟩

inductive CorePc where
  | entry
  | test
  | asleep
  | stopping (tasks : List Tasks.LoadTask)
  | ended
  deriving DecidableEq, Repr

inductive MainPc where
  | init
  | serving
  | joining
  | over
  deriving DecidableEq, Repr

structure Core where
  main : MainPc
  cond : Int
  initialized : Bool
  thread : Option CorePc
  deriving DecidableEq, Repr

def Core.initial : Core := ⟨.init,1,true,none⟩

def loadCoreStop (k : Core) : Core :=
  if k.initialized then {k with initialized := false, main := .joining} else {k with main := .over}

/- Every failure but that of `pthread_create` leads to `load_core_done`. -/
def loadCoreStart (calls : Tasks.StartCalls) (k : Core) : Core :=
  if calls.mutexattrInit && calls.mutexattrSettype && calls.mutexInit then
    {k with main := .serving, thread := if calls.create then some .entry else none}
  else loadCoreStop k

inductive CoreEvent where
  | start (calls : Tasks.StartCalls)
  | thread
  | done
  | joined
  deriving DecidableEq, Repr

/- One step of `load_core_thread`; in `stopping` it is a `load_*_done` that returns. -/
def coreThread (cond : Int) : CorePc → Option CorePc
  | .entry => some .test
  | .test => some (if cond = 0 then .stopping [.nodeState,.demo,.vmon,.child] else .asleep)
  | .asleep => some .test
  | .stopping (_ :: rest) => some (.stopping rest)
  | .stopping [] => some .ended
  | .ended => none

def coreStep (k : Core) : CoreEvent → Option Core
  | .start calls => if k.main = .init then some (loadCoreStart calls k) else none
  | .thread => (k.thread.bind (coreThread k.cond)).map (fun pc => {k with thread := some pc})
  | .done => if k.main = .serving then some (loadCoreStop k) else none
  | .joined => if k.main = .joining ∧ k.thread = some .ended then some {k with main := .over} else none

def core : System Core CoreEvent := ⟨(· = .initial),coreStep⟩

def looping (e : CoreEvent) : Bool := e = .thread

structure Looping (k : Core) : Prop where
  cond : k.cond = 1
  before : k.thread = none ∨ k.thread = some .entry ∨ k.thread = some .test ∨ k.thread = some .asleep

theorem coreThreadInv {k t : Core} (h : coreStep k .thread = some t) :
    ∃ pc next, k.thread = some pc ∧ coreThread k.cond pc = some next ∧ t = {k with thread := some next} := by
  obtain ⟨next,moved,rfl⟩ := Option.map_eq_some_iff.mp h
  obtain ⟨pc,here,turned⟩ := Option.bind_eq_some_iff.mp moved
  exact ⟨pc,next,here,turned,rfl⟩

theorem stopKeeps (k : Core) : (loadCoreStop k).cond = k.cond ∧ (loadCoreStop k).thread = k.thread := by
  unfold loadCoreStop
  split
  · exact ⟨rfl,rfl⟩
  · exact ⟨rfl,rfl⟩

theorem startKeeps (calls : Tasks.StartCalls) (k : Core) : (loadCoreStart calls k).cond = k.cond ∧
    ((loadCoreStart calls k).thread = none ∨ (loadCoreStart calls k).thread = some .entry ∨
      (loadCoreStart calls k).thread = k.thread) := by
  obtain ⟨attr,settype,mutex,create⟩ := calls
  by_cases passed : (attr && settype && mutex) = true
  · cases create with
    | true => simp [loadCoreStart, passed]
    | false => simp [loadCoreStart, passed]
  · have failed : loadCoreStart ⟨attr,settype,mutex,create⟩ k = loadCoreStop k := if_neg passed
    rw [failed]
    exact ⟨(stopKeeps k).1,Or.inr (Or.inr (stopKeeps k).2)⟩

theorem Looping.runs {k : Core} (l : Looping k) : k.thread ≠ some .ended := by
  rcases l.before with here | here | here | here <;> simp [here]

theorem loopingStep {k t : Core} {e : CoreEvent} (l : Looping k) (h : coreStep k e = some t) : Looping t := by
  cases e with
  | start calls =>
    obtain ⟨_,rfl⟩ := guardTaken h
    obtain ⟨same,thread⟩ := startKeeps calls k
    refine ⟨same.trans l.cond,?_⟩
    rcases thread with none | entry | kept
    · exact Or.inl none
    · exact Or.inr (Or.inl entry)
    · rw [kept]
      exact l.before
  | thread =>
    obtain ⟨pc,next,here,moved,rfl⟩ := coreThreadInv h
    refine ⟨l.cond,?_⟩
    rw [l.cond] at moved
    rcases l.before with there | there | there | there
    · rw [here] at there
      cases there
    · obtain rfl : pc = .entry := Option.some.inj (here.symm.trans there)
      cases Option.some.inj moved
      exact Or.inr (Or.inr (Or.inl rfl))
    · obtain rfl : pc = .test := Option.some.inj (here.symm.trans there)
      cases Option.some.inj moved
      exact Or.inr (Or.inr (Or.inr rfl))
    · obtain rfl : pc = .asleep := Option.some.inj (here.symm.trans there)
      cases Option.some.inj moved
      exact Or.inr (Or.inr (Or.inl rfl))
  | done =>
    obtain ⟨_,rfl⟩ := guardTaken h
    exact ⟨(stopKeeps k).1.trans l.cond,by rw [(stopKeeps k).2]; exact l.before⟩
  | joined =>
    obtain ⟨⟨_,ended⟩,_⟩ := guardTaken h
    exact absurd ended l.runs

theorem reachableLooping {k : Core} (reached : core.Reachable k) : Looping k := by
  apply core.reachableInvariant _ _ reached
  · intro k same
    subst same
    exact ⟨rfl,Or.inl rfl⟩
  · exact fun k e t l h => loopingStep l h

theorem coreTurn {k : Core} (started : Looping k ∧ k.thread ≠ none) :
    ∃ events t, core.run k events = some t ∧ (Looping t ∧ t.thread ≠ none) ∧ 0 < events.countP looping := by
  obtain ⟨l,born⟩ := started
  have turned : ∃ t, core.step k .thread = some t ∧ t.thread ≠ none := by
    obtain ⟨main,cond,initialized,thread⟩ := k
    obtain rfl : cond = 1 := l.cond
    rcases l.before with here | here | here | here
    · exact absurd here born
    · obtain rfl : thread = some .entry := here
      exact ⟨_,rfl,Option.some_ne_none _⟩
    · obtain rfl : thread = some .test := here
      exact ⟨_,rfl,Option.some_ne_none _⟩
    · obtain rfl : thread = some .asleep := here
      exact ⟨_,rfl,Option.some_ne_none _⟩
  obtain ⟨t,taken,there⟩ := turned
  exact ⟨[.thread],t,core.runTaken taken [],⟨loopingStep (e := .thread) l taken,there⟩,Nat.one_pos⟩

theorem joiningStays {k t : Core} {events : List CoreEvent} (l : Looping k) (joins : k.main = .joining)
    (ran : core.run k events = some t) : t.main = .joining := by
  have kept := core.stateInvariant (J := fun k => Looping k ∧ k.main = .joining) ?_ ⟨l,joins⟩ ran
  · exact kept.2
  · intro s e u kept h
    obtain ⟨l,joins⟩ := kept
    refine ⟨loopingStep l h,?_⟩
    cases e with
    | start calls =>
      have early := (guardTaken h).1
      rw [joins] at early
      cases early
    | thread =>
      obtain ⟨_,_,_,_,rfl⟩ := coreThreadInv h
      exact joins
    | done =>
      have early := (guardTaken h).1
      rw [joins] at early
      cases early
    | joined => exact absurd (guardTaken h).1.2 l.runs

inductive Worker where
  | task (load : Tasks.LoadTask) (w : Tasks.World)
  | supervisor (s : LoadChild.Supervisor)
  | core (k : Core)

def Worker.Joined : Worker → Prop
  | .task load w => load ≠ .child ∧ (Tasks.system load).Reachable w ∧ w.core = .joining
  | .supervisor s => LoadChild.thread.Reachable s ∧ s.cond = false
  | .core k => Shutdown.core.Reachable k ∧ k.main = .joining ∧ k.thread ≠ none

def Worker.Leaves : Worker → Prop
  | .task load w => (Tasks.system load).Leaves threading Ended w
  | .supervisor s => LoadChild.thread.Leaves supervising Over s
  | .core k => Shutdown.core.Leaves looping (fun k => k.thread = some .ended) k

def Worker.Stoppable : Worker → Prop
  | .task _ _ => True
  | .supervisor s => ¬ Watches s
  | .core _ => False

/- While its stop waits, a worker gets out of its loops within a bounded number of its own steps
exactly when it is the thread of demo, vmon or node state, or the supervisor and does not watch;
and where the core is waited for, `load_core_done` does not return. -/
theorem stopReaches (worker : Worker) (joined : worker.Joined) :
    (worker.Leaves ↔ worker.Stoppable) ∧
      ∀ k, worker = .core k → ∀ events t, core.run k events = some t → t.main = .joining := by
  cases worker with
  | task load w =>
    obtain ⟨_,reached,joins⟩ := joined
    exact ⟨⟨fun _ => trivial,fun _ => taskLeaves reached joins⟩,fun _ same => by cases same⟩
  | supervisor s =>
    obtain ⟨reached,cleared⟩ := joined
    exact ⟨supervisorLeaves reached cleared,fun _ same => by cases same⟩
  | core k =>
    obtain ⟨reached,joins,born⟩ := joined
    have l := reachableLooping reached
    refine ⟨⟨core.staysByLoop (fun _ started => coreTurn started) ⟨l,born⟩,fun none => absurd none id⟩,?_⟩
    intro k same events t ran
    cases same
    exact joiningStays l joins ran

theorem stopsReached :
    (∃ w, w.core = .joining ∧ (Worker.task .demo w).Leaves) ∧
    (∃ s, s.pc = .kill ∧ s.cond = false ∧ (Worker.supervisor s).Leaves) ∧
    ∃ k, k.thread = some .entry ∧ ¬ (Worker.core k).Leaves := by
  refine ⟨?_,?_,?_⟩
  · have runs : ∃ w, (Tasks.system .demo).run .initial
        [.create true,.start ⟨true,true,true,true⟩,.done] = some w ∧ w.core = .joining := ⟨_,rfl,rfl⟩
    obtain ⟨w,ran,joins⟩ := runs
    have joined : (Worker.task .demo w).Joined := ⟨by decide,⟨_,_,rfl,ran⟩,joins⟩
    exact ⟨w,joins,(stopReaches _ joined).1.mpr trivial⟩
  · have reached : LoadChild.thread.Reachable ⟨.kill,false,⟨-1,0,.null⟩,.zero,0,some ⟨0,0,2⟩,⟨0,0,0⟩⟩ :=
      ⟨.initial .zero,[.init ⟨-1,0,0,-1,0,.null⟩,.start true 2,.test,.enter,.stop],⟨.zero,rfl⟩,rfl⟩
    exact ⟨_,rfl,rfl,(stopReaches (.supervisor _) ⟨reached,rfl⟩).1.mpr id⟩
  · have reached : core.Reachable ⟨.joining,1,false,some .entry⟩ :=
      ⟨.initial,[.start ⟨true,true,true,true⟩,.done],rfl,rfl⟩
    exact ⟨_,rfl,(stopReaches (.core _) ⟨reached,rfl,Option.some_ne_none _⟩).1.mp⟩

/- The flag is cleared while the supervisor watches a child that feeds; and the core, whose stop
does not clear the flag. -/
theorem stopMissesLoops :
    (∃ s, LoadChild.thread.Reachable s ∧ s.cond = false ∧ ¬ LoadChild.thread.Leaves supervising Over s) ∧
    ∃ k, core.Reachable k ∧ k.main = .joining ∧ k.cond = 1 ∧
      ¬ core.Leaves looping (fun k => k.thread = some .ended) k := by
  constructor
  · have reached : LoadChild.thread.Reachable ⟨.tick,false,⟨2,4,.attached⟩,.zero,0,some ⟨0,0,2⟩,⟨0,0,0⟩⟩ :=
      ⟨.initial .zero,[.init LoadChild.goodCalls,.start true 2,.test,.enter,.stop],⟨.zero,rfl⟩,rfl⟩
    exact ⟨_,reached,rfl,fun leaves => (supervisorLeaves reached rfl).mp leaves trivial⟩
  · have reached : core.Reachable ⟨.joining,1,false,some .asleep⟩ :=
      ⟨.initial,[.start ⟨true,true,true,true⟩,.thread,.thread,.done],rfl,rfl⟩
    exact ⟨_,reached,rfl,rfl,core.staysByLoop (fun _ started => coreTurn started)
      ⟨reachableLooping reached,Option.some_ne_none _⟩⟩

end VmpRl.Shutdown
