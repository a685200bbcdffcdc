import VmpRl.CRuntime

/-! The shared block of the supervisor and its child, the opening of its semaphore and
segment, and the sections that each side executes on it. -/
namespace VmpRl.IpcShared

structure IpcShmdata where
  dog : BitVec 8
  number : BitVec 32
  deriving DecidableEq, Repr

def IpcShmdata.zero : IpcShmdata := ⟨0,0⟩

/- What `shmbuf` points to: `failed` is the `(void *)-1` of a failed shmat. -/
inductive Shmbuf where
  | null
  | failed
  | attached
  deriving DecidableEq, Repr

structure VmpShmdev where
  semid : Int
  shmid : Int
  shmbuf : Shmbuf
  deriving DecidableEq, Repr

def VmpShmdev.zero : VmpShmdev := ⟨0,0,.null⟩

structure IpcCalls where
  ftokSem : Int
  semget : Int
  semctl : Int
  ftokShm : Int
  shmget : Int
  shmat : Shmbuf
  deriving DecidableEq, Repr

def ipcSemOpen (c : IpcCalls) (init : Bool) : Int :=
  if c.ftokSem < 0 then -1
  else if c.semget < 0 then -1
  else if init && decide (c.semctl < 0) then -1
  else c.semget

def ipcShmOpen (c : IpcCalls) (shm : VmpShmdev) : Int × VmpShmdev :=
  if c.ftokShm < 0 then (-1,shm)
  else if c.shmget < 0 then (-1,shm)
  else
    let shm := {shm with shmid := c.shmget, shmbuf := c.shmat}
    if shm.shmbuf = .failed then (-1,shm) else (0,shm)

def ipcSharedInit (c : IpcCalls) (shm : VmpShmdev) (g : IpcShmdata) : Int × VmpShmdev × IpcShmdata :=
  let shm := {shm with semid := ipcSemOpen c true}
  let (ret, shm) := ipcShmOpen c shm
  if ret < 0 then (-1,shm,g)
  else if shm.shmbuf = .null then (-1,shm,g)
  else (0,shm,.zero)

def ipcWatchdogFeed (g : IpcShmdata) : IpcShmdata := {g with dog := 0}

def ipcStreamConn (g : IpcShmdata) (op : Int) : BitVec 32 × IpcShmdata :=
  let g := {g with number := if op ≠ 0 then g.number + 1 else g.number - 1}
  (g.number,g)

/- `shm_lock` holds the others out only where the semaphore was opened. -/
def Locks (semid : Int) : Prop := 0 ≤ semid

instance (semid : Int) : Decidable (Locks semid) := by unfold Locks; infer_instance

theorem initAttached {c : IpcCalls} {shm : VmpShmdev} {g : IpcShmdata} (fresh : shm.shmbuf = .null)
    (attached : (ipcSharedInit c shm g).2.1.shmbuf = .attached) :
    (ipcSharedInit c shm g).2.2 = .zero := by
  by_cases key : c.ftokShm < 0
  · simp [ipcSharedInit, ipcShmOpen, key, fresh] at attached
  · by_cases segment : c.shmget < 0
    · simp [ipcSharedInit, ipcShmOpen, key, segment, fresh] at attached
    · cases mapped : c.shmat with
      | null => simp [ipcSharedInit, ipcShmOpen, key, segment, mapped] at attached
      | failed => simp [ipcSharedInit, ipcShmOpen, key, segment, mapped] at attached
      | attached => simp [ipcSharedInit, ipcShmOpen, key, segment, mapped]

end VmpRl.IpcShared
