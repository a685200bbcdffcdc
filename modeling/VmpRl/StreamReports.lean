import VmpRl.LoadChild
import VmpRl.Services

/-! The stream count that the vmon and node_state services report: the copy that the supervisor
made at its last tick, beside what it has read since the running child was started. -/
namespace VmpRl.StreamReports
open Octets IpcShared LoadChild Services Transition

/- `load_child_connection_get`; the argument is NULL where there is no process task. -/
def loadChildConnectionGet : Option Supervisor → BitVec 32
  | none => 0
  | some thiz => thiz.vmon

structure SystemReadings where
  uplink : BitVec 64
  downlink : BitVec 64
  memTotal : BitVec 64
  memFree : BitVec 64
  cpu : BitVec 64
  deriving DecidableEq

def scVmonFunc (process : Option Supervisor) (_ : ServiceVmonReq) : Int × ServiceVmonRsp :=
  (0,⟨loadChildConnectionGet process⟩)

/- `response->id` is left as the executor cleared it. -/
def scNodeStateFunc (process : Option Supervisor) (system : SystemReadings) (_ : ServiceNodeStateReq) :
    Int × ServiceNodeStateRsp :=
  (0,⟨0,0,some (cstr "server local"),loadChildConnectionGet process,system.uplink,system.downlink,
    system.memTotal - system.memFree,system.cpu⟩)

/- `readings` are the counts read at the ticks since the running child was started. -/
structure Observed where
  supervisor : Supervisor
  readings : List (BitVec 32)
  deriving DecidableEq, Repr

def Observed.read (o : Observed) : Event → List (BitVec 32)
  | .start true _ => []
  | .kill => []
  | .look => o.readings ++ [o.supervisor.block.number]
  | _ => o.readings

def step (o : Observed) (e : Event) : Option Observed :=
  (LoadChild.step o.supervisor e).map (fun t => ⟨t,o.read e⟩)

def system : System Observed Event := ⟨fun o => ∃ block, o = ⟨.initial block,[]⟩,step⟩

def Observed.Current (o : Observed) (count : BitVec 32) : Prop :=
  count ∈ o.readings ∨ (o.readings = [] ∧ count = 0)

def Reported (o : Observed) : Prop :=
  (∀ req, o.Current (scVmonFunc (some o.supervisor) req).2.num) ∧
  ∀ system req, o.Current (scNodeStateFunc (some o.supervisor) system req).2.count

def KilledIdle (o : Observed) : Event → Prop
  | .kill => o.supervisor.vmon = 0
  | _ => True

theorem reportedIff (o : Observed) : Reported o ↔ o.Current o.supervisor.vmon := by
  constructor
  · intro h
    obtain ⟨vmon,_⟩ := h
    exact vmon ⟨0⟩
  · intro current
    exact ⟨fun _ => current,fun _ _ => current⟩

theorem stepInv {o p : Observed} {e : Event} (h : step o e = some p) :
    LoadChild.step o.supervisor e = some p.supervisor ∧ p.readings = o.read e := by
  obtain ⟨t,taken,rfl⟩ := Option.map_eq_some_iff.mp h
  exact ⟨taken,rfl⟩

structure Fresh (o : Observed) : Prop where
  current : o.Current o.supervisor.vmon
  unread : o.supervisor.pc = .init ∨ o.supervisor.pc = .start ∨ o.supervisor.pc = .restart →
    o.readings = []

theorem Fresh.moved {o p : Observed} (f : Fresh o) (readings : p.readings = o.readings)
    (vmon : p.supervisor.vmon = o.supervisor.vmon)
    (later : p.supervisor.pc = .init ∨ p.supervisor.pc = .start ∨ p.supervisor.pc = .restart →
      o.readings = []) : Fresh p := by
  refine ⟨?_,fun there => readings.trans (later there)⟩
  rw [Observed.Current, readings, vmon]
  exact f.current

theorem freshStep {o p : Observed} {e : Event} (f : Fresh o) (h : step o e = some p)
    (idle : KilledIdle o e) : Fresh p := by
  obtain ⟨t,readings⟩ := p
  obtain ⟨taken,rfl⟩ := stepInv h
  cases e with
  | init calls =>
    obtain ⟨here,rfl⟩ := initInv taken
    exact f.moved rfl rfl (fun _ => f.unread (Or.inl here))
  | start fork semid =>
    obtain ⟨here,⟨rfl,rfl⟩ | ⟨rfl,rfl⟩⟩ := startInv taken
    · have unread := f.unread (Or.inr here)
      refine ⟨Or.inr ⟨rfl,?_⟩,fun _ => rfl⟩
      rcases f.current with read | ⟨_,zero⟩
      · rw [unread] at read
        cases read
      · exact zero
    · exact f.moved rfl rfl (by simp)
  | test =>
    obtain ⟨here,rfl⟩ := testInv taken
    refine f.moved rfl rfl ?_
    cases o.supervisor.cond <;> simp
  | enter =>
    obtain ⟨here,⟨_,rfl⟩ | ⟨_,rfl⟩ | ⟨_,rfl⟩⟩ := enterInv taken
    · exact f.moved rfl rfl (by simp)
    · exact f.moved rfl rfl (by simp)
    · exact f.moved rfl rfl (by simp)
  | load =>
    obtain ⟨here,rfl⟩ := loadInv taken
    exact f.moved rfl rfl (by simp)
  | store =>
    obtain ⟨dog,here,rfl⟩ := storeInv taken
    exact f.moved rfl rfl (by simp)
  | look =>
    obtain ⟨here,rfl⟩ := lookInv taken
    exact ⟨Or.inl (by simp [Observed.read]),by simp⟩
  | again =>
    obtain ⟨watchdog,here,_,rfl⟩ := againInv taken
    exact f.moved rfl rfl (by simp)
  | leave =>
    obtain ⟨watchdog,here,_,rfl⟩ := leaveInv taken
    exact f.moved rfl rfl (by simp)
  | kill =>
    obtain ⟨here,rfl⟩ := killInv taken
    exact ⟨Or.inr ⟨rfl,idle⟩,fun _ => rfl⟩
  | stop =>
    cases Option.some.inj taken
    exact f.moved rfl rfl f.unread
  | feed | streamOpen | streamClose =>
    obtain ⟨c,after,_,_,_,rfl⟩ := childStepInv taken
    exact f.moved rfl rfl f.unread

theorem busyShows {o p : Observed} {e : Event} (h : step o e = some p) (reported : Reported p) :
    KilledIdle o e := by
  cases e with
  | kill =>
    obtain ⟨t,readings⟩ := p
    obtain ⟨taken,rfl⟩ := stepInv h
    obtain ⟨_,rfl⟩ := killInv taken
    rcases (reportedIff _).mp reported with read | ⟨_,zero⟩
    · cases read
    · exact zero
  | init | start | test | enter | load | store | look | again | leave | stop | feed | streamOpen
    | streamClose => trivial

theorem initialFresh (block : IpcShmdata) : Fresh ⟨.initial block,[]⟩ :=
  ⟨Or.inr ⟨rfl,rfl⟩,fun _ => rfl⟩

/- The count reported is the running child's all along a run exactly when no child is killed
whose last count was not 0. -/
theorem reportsCurrent (block : IpcShmdata) {events : List Event} {o : Observed}
    (ran : system.run ⟨.initial block,[]⟩ events = some o) :
    system.AllStates Reported ⟨.initial block,[]⟩ events ↔
      system.AllSteps KilledIdle ⟨.initial block,[]⟩ events :=
  system.exactCondition (fun o f => (reportedIff o).mpr f.current)
    (fun _ _ _ f h idle => freshStep f h idle) (fun _ _ _ _ h reported => busyShows h reported)
    (initialFresh block) ran

def watchedOnce : List Event :=
  [.init goodCalls,.start true 2,.test,.enter,.streamOpen,.load,.store,.look]

theorem watchedCurrent : system.AllStates Reported ⟨.initial .zero,[]⟩ watchedOnce := by
  have runs : ∃ o, system.run ⟨.initial .zero,[]⟩ watchedOnce = some o := ⟨_,rfl⟩
  obtain ⟨o,ran⟩ := runs
  apply (reportsCurrent .zero ran).mpr
  intro before e after t split _
  cases e with
  | kill =>
    have member : Event.kill ∈ watchedOnce := by rw [split]; simp
    simp [watchedOnce] at member
  | init | start | test | enter | load | store | look | again | leave | stop | feed | streamOpen
    | streamClose => trivial

def unfed : List Event :=
  [Event.init goodCalls,.start true 2,.test,.enter,.streamOpen] ++
    (List.replicate 59 [Event.load,.store,.look,.again]).flatten ++ [Event.load,.store,.look,.leave,.kill]

theorem staleCount : ∃ o, system.run ⟨.initial .zero,[]⟩ (unfed ++ [.start true 2]) = some o ∧
    o.readings = [] ∧ o.supervisor.child = some ⟨0,0,2⟩ ∧
    (scVmonFunc (some o.supervisor) ⟨0⟩).2.num = 1 ∧ ¬ Reported o := by
  have ran : system.run ⟨.initial .zero,[]⟩ (unfed ++ [.start true 2]) = some
      ⟨⟨.test,true,⟨2,4,.attached⟩,⟨60,1⟩,1,some ⟨0,0,2⟩,⟨1,0,2⟩⟩,[]⟩ := by decide +kernel
  refine ⟨_,ran,rfl,rfl,rfl,?_⟩
  intro reported
  rcases (reportedIff _).mp reported with read | ⟨_,zero⟩
  · cases read
  · cases zero

end VmpRl.StreamReports
