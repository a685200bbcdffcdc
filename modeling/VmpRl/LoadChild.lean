import VmpRl.Base.Transition
import VmpRl.IpcShared

/-! `load_child_thread` and the child it starts, as one machine: the supervisor goes from
point to point of its loops, the running child executes its sections in between. -/
namespace VmpRl.LoadChild
open IpcShared Transition

/- Where the thread stands: before `ipc_shared_init`, before a `vmp_run_process`, at the test of
the outer loop, at the call of `ipc_shared_proc`, inside its loop, at `kill_app`. -/
inductive Pc where
  | init
  | start
  | test
  | enter
  | tick
  | loaded (dog : BitVec 8)
  | stored
  | looked (watchdog : BitVec 8)
  | kill
  | restart
  | done
  | exited
  | crashed
  deriving DecidableEq, Repr

structure Child where
  opened : Nat
  closed : Nat
  semid : Int
  deriving DecidableEq, Repr

structure Supervisor where
  pc : Pc
  cond : Bool
  ipcs : VmpShmdev
  block : IpcShmdata
  vmon : BitVec 32
  child : Option Child
  killed : Child
  deriving DecidableEq, Repr

/- The segment may hold anything from an earlier daemon. -/
def Supervisor.initial (block : IpcShmdata) : Supervisor :=
  ⟨.init,true,.zero,block,0,none,⟨0,0,0⟩⟩

inductive Event where
  | init (calls : IpcCalls)
  | start (fork : Bool) (semid : Int)
  | test
  | enter
  | load
  | store
  | look
  | again
  | leave
  | kill
  | stop
  | feed
  | streamOpen
  | streamClose
  deriving DecidableEq, Repr

def Pc.inSection : Pc → Bool
  | .loaded _ => true
  | .stored => true
  | _ => false

def Supervisor.excluded (s : Supervisor) (c : Child) : Bool :=
  s.pc.inSection && decide (Locks s.ipcs.semid) && decide (Locks c.semid)

def Supervisor.childStep (s : Supervisor) (act : Child → Option (Child × IpcShmdata)) :
    Option Supervisor :=
  match s.child with
  | none => none
  | some c =>
    if s.excluded c then none
    else (act c).map (fun after => {s with child := some after.1, block := after.2})

def step (s : Supervisor) : Event → Option Supervisor
  | .init calls => match s.pc with
    | .init =>
      let (_, ipcs, block) := ipcSharedInit calls s.ipcs s.block
      some {s with pc := .start, ipcs := ipcs, block := block}
    | _ => none
  | .start fork semid =>
    if s.pc = .start ∨ s.pc = .restart then
      if fork then some {s with pc := .test, child := some ⟨0,0,semid⟩}
      else some {s with pc := .exited} -- `kill_app (); exit (-1)` in `vmp_run_process`
    else none
  | .test =>
    if s.pc = .test then some {s with pc := if s.cond then .enter else .done} else none
  | .enter => match s.pc with
    | .enter => match s.ipcs.shmbuf with
      | .null => some {s with pc := .kill} -- `ipc_shared_proc` returns -1 at once
      | .failed => some {s with pc := .crashed}
      | .attached => some {s with pc := .tick, block := .zero}
    | _ => none
  | .load => if s.pc = .tick then some {s with pc := .loaded s.block.dog} else none
  | .store => match s.pc with
    | .loaded dog => some {s with pc := .stored, block := {s.block with dog := dog + 1}}
    | _ => none
  | .look =>
    if s.pc = .stored then some {s with pc := .looked s.block.dog, vmon := s.block.number} else none
  | .again => match s.pc with
    | .looked watchdog => if 60 ≤ watchdog.toNat then none else some {s with pc := .tick}
    | _ => none
  | .leave => match s.pc with
    | .looked watchdog => if 60 ≤ watchdog.toNat then some {s with pc := .kill} else none
    | _ => none
  | .kill =>
    if s.pc = .kill then some {s with pc := .restart, child := none, killed := s.child.getD s.killed}
    else none
  | .stop => some {s with cond := false}
  | .feed => s.childStep (fun c => some (c,ipcWatchdogFeed s.block))
  | .streamOpen => s.childStep (fun c =>
      some ({c with opened := c.opened + 1},(ipcStreamConn s.block 1).2))
  | .streamClose => s.childStep (fun c =>
      if c.closed < c.opened then some ({c with closed := c.closed + 1},(ipcStreamConn s.block 0).2)
      else none)

def thread : System Supervisor Event := ⟨fun s => ∃ block, s = .initial block,step⟩

theorem childStepInv {s t : Supervisor} {act : Child → Option (Child × IpcShmdata)}
    (h : s.childStep act = some t) :
    ∃ c after, s.child = some c ∧ s.excluded c = false ∧ act c = some after ∧
      t = {s with child := some after.1, block := after.2} := by
  unfold Supervisor.childStep at h
  split at h
  · cases h
  · rename_i c running
    split at h
    · cases h
    · rename_i entered
      obtain ⟨after,acted,same⟩ := Option.map_eq_some_iff.mp h
      exact ⟨c,after,running,by simpa using entered,acted,same.symm⟩

theorem startInv {s t : Supervisor} {fork : Bool} {semid : Int} (h : step s (.start fork semid) = some t) :
    (s.pc = .start ∨ s.pc = .restart) ∧
    ((fork = true ∧ t = {s with pc := .test, child := some ⟨0,0,semid⟩}) ∨
      (fork = false ∧ t = {s with pc := .exited})) := by
  cases fork with
  | true =>
    obtain ⟨here,same⟩ := guardTaken h
    exact ⟨here,Or.inl ⟨rfl,same⟩⟩
  | false =>
    obtain ⟨here,same⟩ := guardTaken h
    exact ⟨here,Or.inr ⟨rfl,same⟩⟩

theorem enterInv {s t : Supervisor} (h : step s .enter = some t) :
    s.pc = .enter ∧
    ((s.ipcs.shmbuf = .null ∧ t = {s with pc := .kill}) ∨
      (s.ipcs.shmbuf = .failed ∧ t = {s with pc := .crashed}) ∨
      (s.ipcs.shmbuf = .attached ∧ t = {s with pc := .tick, block := .zero})) := by
  simp only [step] at h
  split at h
  · rename_i here
    split at h
    · rename_i buf
      exact ⟨here,Or.inl ⟨buf,(Option.some.inj h).symm⟩⟩
    · rename_i buf
      exact ⟨here,Or.inr (Or.inl ⟨buf,(Option.some.inj h).symm⟩)⟩
    · rename_i buf
      exact ⟨here,Or.inr (Or.inr ⟨buf,(Option.some.inj h).symm⟩)⟩
  · cases h

theorem initInv {s t : Supervisor} {calls : IpcCalls} (h : step s (.init calls) = some t) :
    s.pc = .init ∧ t = {s with
      pc := .start
      ipcs := (ipcSharedInit calls s.ipcs s.block).2.1
      block := (ipcSharedInit calls s.ipcs s.block).2.2} := by
  simp only [step] at h
  split at h
  · rename_i here
    exact ⟨here,(Option.some.inj h).symm⟩
  · cases h

theorem killInv {s t : Supervisor} (h : step s .kill = some t) :
    s.pc = .kill ∧ t = {s with pc := .restart, child := none, killed := s.child.getD s.killed} :=
  guardTaken h

theorem testInv {s t : Supervisor} (h : step s .test = some t) :
    s.pc = .test ∧ t = {s with pc := if s.cond then .enter else .done} :=
  guardTaken h

theorem loadInv {s t : Supervisor} (h : step s .load = some t) :
    s.pc = .tick ∧ t = {s with pc := .loaded s.block.dog} :=
  guardTaken h

theorem storeInv {s t : Supervisor} (h : step s .store = some t) :
    ∃ dog, s.pc = .loaded dog ∧
      t = {s with pc := .stored, block := {s.block with dog := dog + 1}} := by
  simp only [step] at h
  split at h
  · rename_i dog here
    exact ⟨dog,here,(Option.some.inj h).symm⟩
  · cases h

theorem lookInv {s t : Supervisor} (h : step s .look = some t) :
    s.pc = .stored ∧ t = {s with pc := .looked s.block.dog, vmon := s.block.number} :=
  guardTaken h

theorem againInv {s t : Supervisor} (h : step s .again = some t) :
    ∃ watchdog, s.pc = .looked watchdog ∧ watchdog.toNat < 60 ∧ t = {s with pc := .tick} := by
  simp only [step] at h
  split at h
  · rename_i watchdog here
    split at h
    · cases h
    · rename_i few
      exact ⟨watchdog,here,Nat.lt_of_not_le few,(Option.some.inj h).symm⟩
  · cases h

theorem leaveInv {s t : Supervisor} (h : step s .leave = some t) :
    ∃ watchdog, s.pc = .looked watchdog ∧ 60 ≤ watchdog.toNat ∧ t = {s with pc := .kill} := by
  simp only [step] at h
  split at h
  · rename_i watchdog here
    obtain ⟨many,same⟩ := guardTaken h
    exact ⟨watchdog,here,many,same⟩
  · cases h

def Counts (s : Supervisor) : Prop :=
  ∀ c, s.child = some c → (s.block.number.toNat : Int) = c.opened - c.closed

def InTime (s : Supervisor) : Event → Prop
  | .enter => ∀ c, s.child = some c → c.opened = c.closed
  | .start fork _ => fork = true → s.killed.opened = s.killed.closed
  | .streamOpen => ∀ c, s.child = some c → c.opened + 1 < 2 ^ 32 + c.closed
  | _ => True

structure Counted (s : Supervisor) : Prop where
  attached : s.ipcs.shmbuf = .attached
  running : ∀ c, s.child = some c → s.block.number.toNat + c.closed = c.opened
  killed : s.child = none → s.block.number.toNat + s.killed.closed = s.killed.opened
  vacant : s.pc = .start ∨ s.pc = .restart → s.child = none
  manned : s.child = none → s.pc = .start ∨ s.pc = .restart ∨ s.pc = .exited
  opened : s.pc ≠ .init

theorem Counted.counts {s : Supervisor} (i : Counted s) : Counts s := by
  intro c running
  have sum := i.running c running
  omega

theorem Counted.moved {s : Supervisor} (i : Counted s) {pc : Pc} {cond : Bool} {block : IpcShmdata}
    {vmon : BitVec 32} (same : block.number = s.block.number)
    (inside : s.pc ≠ .start ∧ s.pc ≠ .restart ∧ s.pc ≠ .exited)
    (stays : pc ≠ .start ∧ pc ≠ .restart ∧ pc ≠ .init) :
    Counted {s with pc := pc, cond := cond, block := block, vmon := vmon} := by
  refine ⟨i.attached,?_,?_,?_,?_,stays.2.2⟩
  · intro c running
    rw [same]
    exact i.running c running
  · intro none
    rw [same]
    exact i.killed none
  · intro there
    rcases there with h | h
    · exact absurd h stays.1
    · exact absurd h stays.2.1
  · intro none
    rcases i.manned none with h | h | h
    · exact absurd h inside.1
    · exact absurd h inside.2.1
    · exact absurd h inside.2.2

theorem Counted.childMoved {s : Supervisor} (i : Counted s) {c after : Child} {block : IpcShmdata}
    (running : s.child = some c) (counted : block.number.toNat + after.closed = after.opened) :
    Counted {s with child := some after, block := block} := by
  refine ⟨i.attached,?_,by simp,?_,by simp,i.opened⟩
  · intro d same
    cases Option.some.inj same
    exact counted
  · intro there
    have none := i.vacant there
    rw [running] at none
    cases none

theorem Counted.manning {s : Supervisor} (i : Counted s)
    (inside : s.pc ≠ .start ∧ s.pc ≠ .restart ∧ s.pc ≠ .exited) : s.child ≠ none := by
  intro none
  rcases i.manned none with here | here | here
  · exact inside.1 here
  · exact inside.2.1 here
  · exact inside.2.2 here

theorem startCounted {s t : Supervisor} {fork : Bool} {semid : Int} (i : Counted s)
    (h : step s (.start fork semid) = some t) (good : InTime s (.start fork semid)) : Counted t := by
  obtain ⟨here,⟨forked,rfl⟩ | ⟨_,rfl⟩⟩ := startInv h
  · have none := i.vacant here
    have sum := i.killed none
    have closed := good forked
    refine ⟨i.attached,?_,by simp,by simp,by simp,by simp⟩
    intro c same
    cases Option.some.inj same
    simp only
    omega
  · exact ⟨i.attached,i.running,i.killed,by simp,fun _ => Or.inr (Or.inr rfl),by simp⟩

theorem enterCounted {s t : Supervisor} (i : Counted s) (h : step s .enter = some t) (good : InTime s .enter) :
    Counted t := by
  obtain ⟨here,⟨buf,_⟩ | ⟨buf,_⟩ | ⟨_,rfl⟩⟩ := enterInv h
  · rw [i.attached] at buf
    cases buf
  · rw [i.attached] at buf
    cases buf
  · have manned := i.manning (by simp [here])
    refine ⟨i.attached,?_,fun none => absurd none manned,by simp,fun none => absurd none manned,by simp⟩
    intro c running
    have closed := good c running
    simp [IpcShmdata.zero, closed]

theorem childKilledCounted {s t : Supervisor} (i : Counted s) (h : step s .kill = some t) : Counted t := by
  obtain ⟨here,rfl⟩ := killInv h
  obtain ⟨c,running⟩ := Option.ne_none_iff_exists'.mp (i.manning (by simp [here]))
  have sum := i.running c running
  refine ⟨i.attached,by simp,?_,by simp,fun _ => Or.inr (Or.inl rfl),by simp⟩
  intro _
  simp only [running, Option.getD_some]
  exact sum

theorem openCounted {s t : Supervisor} (i : Counted s) (h : step s .streamOpen = some t)
    (good : InTime s .streamOpen) : Counted t := by
  obtain ⟨c,after,running,_,acted,rfl⟩ := childStepInv h
  cases Option.some.inj acted
  have sum := i.running c running
  have room := good c running
  have next : (s.block.number + 1).toNat = s.block.number.toNat + 1 := by
    rw [BitVec.toNat_add]
    simp
    omega
  apply i.childMoved running
  simp only [ipcStreamConn]
  simp
  omega

theorem closeCounted {s t : Supervisor} (i : Counted s) (h : step s .streamClose = some t) : Counted t := by
  obtain ⟨c,after,running,_,acted,rfl⟩ := childStepInv h
  split at acted
  · rename_i opened
    cases Option.some.inj acted
    have sum := i.running c running
    have previous : (s.block.number - 1).toNat = s.block.number.toNat - 1 := by
      rw [BitVec.toNat_sub]
      simp
      omega
    apply i.childMoved running
    simp only [ipcStreamConn]
    simp
    omega
  · cases acted

theorem countedStep {s t : Supervisor} {e : Event} (i : Counted s) (h : step s e = some t)
    (good : InTime s e) : Counted t := by
  cases e with
  | init calls => exact absurd (initInv h).1 i.opened
  | start fork semid => exact startCounted i h good
  | test =>
    obtain ⟨here,rfl⟩ := testInv h
    exact i.moved rfl (by simp [here]) (by split <;> simp)
  | enter => exact enterCounted i h good
  | load =>
    obtain ⟨here,rfl⟩ := loadInv h
    exact i.moved rfl (by simp [here]) (by simp)
  | store =>
    obtain ⟨dog,here,rfl⟩ := storeInv h
    exact i.moved rfl (by simp [here]) (by simp)
  | look =>
    obtain ⟨here,rfl⟩ := lookInv h
    exact i.moved rfl (by simp [here]) (by simp)
  | again =>
    obtain ⟨watchdog,here,_,rfl⟩ := againInv h
    exact i.moved rfl (by simp [here]) (by simp)
  | leave =>
    obtain ⟨watchdog,here,_,rfl⟩ := leaveInv h
    exact i.moved rfl (by simp [here]) (by simp)
  | kill => exact childKilledCounted i h
  | stop =>
    cases Option.some.inj h
    exact ⟨i.attached,i.running,i.killed,i.vacant,i.manned,i.opened⟩
  | feed =>
    obtain ⟨c,after,running,_,acted,rfl⟩ := childStepInv h
    cases Option.some.inj acted
    exact i.childMoved running (i.running c running)
  | streamOpen => exact openCounted i h good
  | streamClose => exact closeCounted i h

theorem lateShows {s t : Supervisor} {e : Event} (i : Counted s) (h : step s e = some t)
    (counts : Counts t) : InTime s e := by
  cases e with
  | start fork semid =>
    intro forked
    obtain ⟨here,⟨_,rfl⟩ | ⟨unforked,_⟩⟩ := startInv h
    · have sum := i.killed (i.vacant here)
      have shown := counts ⟨0,0,semid⟩ rfl
      simp only at shown
      omega
    · rw [forked] at unforked
      cases unforked
  | enter =>
    intro c running
    obtain ⟨_,⟨buf,_⟩ | ⟨buf,_⟩ | ⟨_,rfl⟩⟩ := enterInv h
    · rw [i.attached] at buf
      cases buf
    · rw [i.attached] at buf
      cases buf
    · have shown : (((0 : BitVec 32).toNat : Nat) : Int) = c.opened - c.closed := counts c running
      have zero : (0 : BitVec 32).toNat = 0 := rfl
      omega
  | streamOpen =>
    intro c running
    obtain ⟨d,after,there,_,acted,rfl⟩ := childStepInv h
    rw [running] at there
    obtain rfl := Option.some.inj there
    cases Option.some.inj acted
    have sum := i.running c running
    have shown : (((s.block.number + 1).toNat : Nat) : Int) = (c.opened + 1 : Nat) - c.closed :=
      counts _ rfl
    have one : (1 : BitVec 32).toNat = 1 := rfl
    rw [BitVec.toNat_add, one] at shown
    omega
  | init | test | load | store | look | again | leave | kill | stop | feed | streamClose => trivial

theorem initCounted {block : IpcShmdata} {calls : IpcCalls} {s : Supervisor}
    (h : step (.initial block) (.init calls) = some s) (attached : s.ipcs.shmbuf = .attached) :
    Counted s := by
  obtain ⟨_,rfl⟩ := initInv h
  have cleared := initAttached (g := block) rfl attached
  refine ⟨attached,by simp [Supervisor.initial],?_,fun _ => rfl,fun _ => Or.inl rfl,by simp⟩
  intro _
  have zero : (ipcSharedInit calls VmpShmdev.zero block).2.2 = .zero := cleared
  simp [Supervisor.initial, zero, IpcShmdata.zero]

/- From the end of an `ipc_shared_init` that got the segment, the counter shows the streams of the
running child all along a run exactly when no step of the run comes too late. -/
theorem streamCounter {block : IpcShmdata} {calls : IpcCalls} {s : Supervisor}
    (init : step (.initial block) (.init calls) = some s) (attached : s.ipcs.shmbuf = .attached)
    {events : List Event} {t : Supervisor} (ran : thread.run s events = some t) :
    thread.AllStates Counts s events ↔ thread.AllSteps InTime s events :=
  thread.exactCondition (fun _ i => i.counts) (fun _ _ _ i h good => countedStep i h good)
    (fun _ _ _ i h counts => lateShows i h counts) (initCounted init attached) ran

def goodCalls : IpcCalls := ⟨1,2,0,3,4,.attached⟩
def afterInit : Supervisor := {Supervisor.initial .zero with pc := .start, ipcs := ⟨2,4,.attached⟩}

theorem streamCounted : thread.AllStates Counts afterInit
    [.start true 2,.test,.enter,.streamOpen,.streamClose] := by
  have init : step (.initial .zero) (.init goodCalls) = some afterInit := rfl
  have ran : thread.run afterInit [.start true 2,.test,.enter,.streamOpen,.streamClose] = some
      ⟨.tick,true,⟨2,4,.attached⟩,.zero,0,some ⟨1,1,2⟩,⟨0,0,0⟩⟩ := rfl
  apply (streamCounter init rfl ran).mpr
  refine (thread.allStepsCons rfl).mpr ⟨fun _ => rfl,(thread.allStepsCons rfl).mpr ⟨trivial,?_⟩⟩
  refine (thread.allStepsCons rfl).mpr ⟨?_,?_⟩
  · intro c running
    cases Option.some.inj running
    rfl
  · refine (thread.allStepsCons rfl).mpr ⟨?_,?_⟩
    · intro c running
      cases Option.some.inj running
      decide
    · exact (thread.allStepsCons rfl).mpr ⟨trivial,thread.allStepsNil _ _⟩

/- A child that opens a stream before `ipc_shared_proc` clears the block, and closes it after. -/
theorem streamWraps : ∃ s c,
    thread.run (.initial .zero)
      [.init goodCalls,.start true 2,.streamOpen,.test,.enter,.streamClose] = some s ∧
    s.child = some c ∧ c.opened = c.closed ∧ s.block.number = 4294967295 ∧ ¬ Counts s := by
  refine ⟨_,⟨1,1,2⟩,rfl,rfl,rfl,rfl,?_⟩
  intro counts
  have shown := counts ⟨1,1,2⟩ rfl
  revert shown
  decide

end VmpRl.LoadChild
