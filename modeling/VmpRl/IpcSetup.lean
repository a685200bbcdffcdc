import VmpRl.WatchLoop

/-! What the two set-up functions of the shared block leave to the operations behind them. Neither
looks at what `vmp_filepath_check` returns: a missing path shows in what `ftok` returns. -/
namespace VmpRl.IpcSetup
open CRuntime IpcShared

/- The child's side: `ipc_sem_open` without SETALL, and what `ipc_shm_open` returns. -/
def ipcShareInit (c : IpcCalls) (shm : VmpShmdev) : Int × VmpShmdev :=
  ipcShmOpen c {shm with semid := ipcSemOpen c false}

inductive Answer where
  | returned (ret : Int)
  | vmon (number : BitVec 32)
  | watches (s : WatchLoop.Watch)
  deriving DecidableEq, Repr

/- `if (!g_data) return ..`, then a section on the block; at (void *)-1 there is none. -/
def onBlock (shm : VmpShmdev) (refusal : Answer) (body : IpcShmdata → Answer × IpcShmdata)
    (g : IpcShmdata) : Run (Answer × IpcShmdata) := match shm.shmbuf with
  | .null => .ok (refusal,g)
  | .failed => .error .outOfBounds
  | .attached => .ok (body g)

/- `ipc_shared_proc` up to its loop; `vmon` is what `*data` holds before the call. -/
def ipcSharedProc (shm : VmpShmdev) (vmon : BitVec 32) : IpcShmdata → Run (Answer × IpcShmdata) :=
  onBlock shm (.returned (-1)) (fun _ =>
    let s := WatchLoop.enter vmon
    (.watches s,s.block))

def ipcSharedVmon (shm : VmpShmdev) : IpcShmdata → Run (Answer × IpcShmdata) :=
  onBlock shm (.vmon 0) (fun g => (.vmon g.number,g))

def ipcWatchdogFeedCall (shm : VmpShmdev) (unlocked : Int) : IpcShmdata → Run (Answer × IpcShmdata) :=
  onBlock shm (.returned (-1)) (fun g => (.returned unlocked,ipcWatchdogFeed g))

def ipcStreamConnCall (shm : VmpShmdev) (op : Int) : IpcShmdata → Run (Answer × IpcShmdata) :=
  onBlock shm (.returned (-1)) (fun g =>
    let (ret, g) := ipcStreamConn g op
    (.returned ret.toInt,g))

inductive Operation where
  | sharedProc (vmon : BitVec 32)
  | sharedVmon
  | watchdogFeed (unlocked : Int)
  | streamConn (op : Int)
  deriving DecidableEq, Repr

def Operation.call (shm : VmpShmdev) : Operation → IpcShmdata → Run (Answer × IpcShmdata)
  | .sharedProc vmon => ipcSharedProc shm vmon
  | .sharedVmon => ipcSharedVmon shm
  | .watchdogFeed unlocked => ipcWatchdogFeedCall shm unlocked
  | .streamConn op => ipcStreamConnCall shm op

def Operation.refusal : Operation → Answer
  | .sharedVmon => .vmon 0
  | _ => .returned (-1)

def callAll (shm : VmpShmdev) : List Operation → IpcShmdata → Run (List Answer × IpcShmdata)
  | [], g => .ok ([],g)
  | o :: later, g => do
    let (answer, g) ← o.call shm g
    let (answers, g) ← callAll shm later g
    .ok (answer :: answers,g)

def Refuses (shm : VmpShmdev) : Prop :=
  ∀ later g, callAll shm later g = .ok (later.map Operation.refusal,g)

def Usable (shm : VmpShmdev) : Prop := Locks shm.semid ∧ shm.shmbuf = .attached

structure SetUp (ret : Int) (shm : VmpShmdev) : Prop where
  failed : ret < 0 → Refuses shm
  opened : 0 ≤ ret → Usable shm

theorem refusesNext {shm : VmpShmdev} (null : shm.shmbuf = .null) (o : Operation) (g : IpcShmdata) :
    o.call shm g = .ok (o.refusal,g) := by
  cases o with
  | sharedProc vmon => simp only [Operation.call, ipcSharedProc, onBlock, null, Operation.refusal]
  | sharedVmon => simp only [Operation.call, ipcSharedVmon, onBlock, null, Operation.refusal]
  | watchdogFeed unlocked => simp only [Operation.call, ipcWatchdogFeedCall, onBlock, null, Operation.refusal]
  | streamConn op => simp only [Operation.call, ipcStreamConnCall, onBlock, null, Operation.refusal]

theorem refusesAll {shm : VmpShmdev} (null : shm.shmbuf = .null) : Refuses shm := by
  intro later
  induction later with
  | nil =>
    intro g
    rfl
  | cons o later ih =>
    intro g
    simp only [callAll, refusesNext null, bind, Except.bind, ih, List.map_cons]

theorem refusesNull (shm : VmpShmdev) : Refuses shm ↔ shm.shmbuf = .null := by
  constructor
  · intro refuses
    have copy := refuses [.sharedVmon] ⟨0,1⟩
    simp only [callAll, Operation.call, ipcSharedVmon, onBlock] at copy
    cases buf : shm.shmbuf with
    | null => rfl
    | failed =>
      rw [buf] at copy
      cases copy
    | attached =>
      rw [buf] at copy
      cases copy
  · exact refusesAll

theorem setUpFailed {ret : Int} {shm : VmpShmdev} (negative : ret < 0) :
    SetUp ret shm ↔ shm.shmbuf = .null := by
  rw [← refusesNull]
  constructor
  · intro s
    exact s.failed negative
  · intro refuses
    exact ⟨fun _ => refuses,fun zero => absurd negative (by omega)⟩

theorem setUpOpened {ret : Int} {shm : VmpShmdev} (zero : 0 ≤ ret) : SetUp ret shm ↔ Usable shm := by
  constructor
  · intro s
    exact s.opened zero
  · intro usable
    exact ⟨fun negative => absurd negative (by omega),fun _ => usable⟩

theorem semOpened (c : IpcCalls) (init : Bool) :
    Locks (ipcSemOpen c init) ↔ 0 ≤ c.ftokSem ∧ 0 ≤ c.semget ∧ (init = true → 0 ≤ c.semctl) := by
  unfold Locks ipcSemOpen
  by_cases key : c.ftokSem < 0
  · rw [if_pos key]
    omega
  · by_cases got : c.semget < 0
    · rw [if_neg key, if_pos got]
      omega
    · cases init with
      | false =>
        simp only [if_neg key, if_neg got, Bool.false_and, Bool.false_eq_true, if_false]
        simp only [false_imp_iff, and_true]
        omega
      | true =>
        simp only [if_neg key, if_neg got, Bool.true_and, decide_eq_true_eq]
        by_cases set : c.semctl < 0
        · rw [if_pos set]
          simp only [forall_const]
          omega
        · rw [if_neg set]
          simp only [forall_const]
          omega

def Unreached (c : IpcCalls) : Prop := c.ftokShm < 0 ∨ c.shmget < 0

instance (c : IpcCalls) : Decidable (Unreached c) := by unfold Unreached; infer_instance

theorem shmUnreached {c : IpcCalls} (stopped : Unreached c) (shm : VmpShmdev) : ipcShmOpen c shm = (-1,shm) := by
  unfold ipcShmOpen
  by_cases key : c.ftokShm < 0
  · rw [if_pos key]
  · rcases stopped with negative | negative
    · exact absurd negative key
    · rw [if_neg key, if_pos negative]

theorem shmReached {c : IpcCalls} (reached : ¬ Unreached c) (shm : VmpShmdev) :
    ipcShmOpen c shm = (if c.shmat = .failed then -1 else 0,{shm with shmid := c.shmget, shmbuf := c.shmat}) := by
  unfold Unreached at reached
  unfold ipcShmOpen
  rw [if_neg (fun key => reached (Or.inl key)), if_neg (fun got => reached (Or.inr got))]
  by_cases mapped : c.shmat = .failed
  · simp only [mapped, if_true]
  · simp only [if_neg mapped]

theorem sharedJudged (c : IpcCalls) (g : IpcShmdata) :
    SetUp (ipcSharedInit c .zero g).1 (ipcSharedInit c .zero g).2.1 ↔
      Unreached c ∨ c.shmat = .null ∨ c.shmat = .attached ∧ Locks (ipcSemOpen c true) := by
  by_cases stopped : Unreached c
  · simp only [ipcSharedInit, shmUnreached stopped]
    rw [if_pos (show (-1 : Int) < 0 by decide), setUpFailed (show (-1 : Int) < 0 by decide)]
    exact ⟨fun _ => Or.inl stopped,fun _ => rfl⟩
  · simp only [ipcSharedInit, shmReached stopped, stopped, false_or]
    cases mapped : c.shmat with
    | null => simp [setUpFailed]
    | failed => simp [setUpFailed]
    | attached => simp [setUpOpened, Usable]

theorem shareJudged (c : IpcCalls) :
    SetUp (ipcShareInit c .zero).1 (ipcShareInit c .zero).2 ↔
      Unreached c ∨ c.shmat = .attached ∧ Locks (ipcSemOpen c false) := by
  by_cases stopped : Unreached c
  · simp only [ipcShareInit, shmUnreached stopped]
    rw [setUpFailed (by decide)]
    exact ⟨fun _ => Or.inl stopped,fun _ => rfl⟩
  · simp only [ipcShareInit, shmReached stopped, stopped, false_or]
    cases mapped : c.shmat with
    | null => simp [setUpOpened, Usable]
    | failed => simp [setUpFailed]
    | attached => simp [setUpOpened, Usable]

/- From the zeroed structure: a failed shmat leaves its (void *)-1 for the operations to touch, and a
semaphore that could not be opened is no failure. -/
theorem failuresDisable (c : IpcCalls) (g : IpcShmdata) :
    (SetUp (ipcSharedInit c .zero g).1 (ipcSharedInit c .zero g).2.1 ↔
      c.ftokShm < 0 ∨ c.shmget < 0 ∨ c.shmat = .null ∨
        c.shmat = .attached ∧ 0 ≤ c.ftokSem ∧ 0 ≤ c.semget ∧ 0 ≤ c.semctl) ∧
    (SetUp (ipcShareInit c .zero).1 (ipcShareInit c .zero).2 ↔
      c.ftokShm < 0 ∨ c.shmget < 0 ∨ c.shmat = .attached ∧ 0 ≤ c.ftokSem ∧ 0 ≤ c.semget) := by
  rw [sharedJudged, shareJudged, semOpened, semOpened]
  simp only [Unreached, or_assoc, forall_const, Bool.false_eq_true, false_imp_iff, and_true, and_self]

def unmapped : IpcCalls := ⟨1,0,0,1,0,.failed⟩
def noSemaphore : IpcCalls := ⟨1,-1,0,1,0,.attached⟩

theorem failuresLeft :
    (ipcShareInit unmapped .zero).1 = -1 ∧
      (Operation.watchdogFeed 0).call (ipcShareInit unmapped .zero).2 .zero = .error .outOfBounds ∧
      ¬ SetUp (ipcShareInit unmapped .zero).1 (ipcShareInit unmapped .zero).2 ∧
      ¬ SetUp (ipcSharedInit unmapped .zero .zero).1 (ipcSharedInit unmapped .zero .zero).2.1 ∧
      (ipcShareInit noSemaphore .zero).1 = 0 ∧ (ipcShareInit noSemaphore .zero).2.semid = -1 ∧
      ¬ SetUp (ipcShareInit noSemaphore .zero).1 (ipcShareInit noSemaphore .zero).2 ∧
      ¬ SetUp (ipcSharedInit noSemaphore .zero .zero).1 (ipcSharedInit noSemaphore .zero .zero).2.1 := by
  refine ⟨rfl,rfl,?_,?_,rfl,rfl,?_,?_⟩
  · rw [shareJudged]
    decide
  · rw [sharedJudged]
    decide
  · rw [shareJudged]
    decide
  · rw [sharedJudged]
    decide

end VmpRl.IpcSetup
