import VmpRl.Base.Guarded
import VmpRl.WatchLoop

/-! The sections between `shm_lock` and `shm_unlock` down to their loads and stores: `ipc_shared_proc` in its thread,
`ipc_shared_vmon` in others of the daemon, `ipc_watchdog_feed` and `ipc_stream_conn` in any thread of the child, which
may be killed anywhere. The semaphore is opened by both and starts at 1. -/
namespace VmpRl.SharedSections
open IpcShared Transition

inductive Section where
  | clear
  | tick
  | vmon
  | feed
  | conn (op : Int)
  deriving DecidableEq, Repr

structure Loaded where
  dog : BitVec 8
  number : BitVec 32
  deriving DecidableEq, Repr

abbrev Access := IpcShmdata → Loaded → IpcShmdata × Loaded

def loadDog : Access := fun g l => (g,{l with dog := g.dog})
def loadNumber : Access := fun g l => (g,{l with number := g.number})
def storeDog (value : Loaded → BitVec 8) : Access := fun g l => ({g with dog := value l},l)
def storeNumber (value : Loaded → BitVec 32) : Access := fun g l => ({g with number := value l},l)

def accesses : Section → List Access
  | .clear => [storeDog (fun _ => 0),storeNumber (fun _ => 0)]
  -- `dog++`, `watchdog = dog` and `*vmon = g_data->vmon`
  | .tick => [loadDog,storeDog (fun l => l.dog + 1),loadDog,loadNumber]
  | .vmon => [loadNumber]
  | .feed => [storeDog (fun _ => 0)]
  -- `number++` or `number--`, and `ret = number`
  | .conn op => [loadNumber,storeNumber (fun l => if op ≠ 0 then l.number + 1 else l.number - 1),loadNumber]

def code : Guarded.Code Section IpcShmdata Loaded := ⟨⟨0,0⟩,accesses⟩

inductive Party (ι : Type) where
  | supervisor
  | daemon (thread : ι)
  | child (thread : ι)
  deriving DecidableEq, Repr

/- Where `ipc_shared_proc` stands: before its memset, in its loop, behind the break. -/
inductive Turn where
  | entering
  | looping
  | left
  deriving DecidableEq, Repr

variable {ι : Type}

def comesTo : Turn → Party ι → Section → Bool
  | .entering, .supervisor, .clear => true
  | .looping, .supervisor, .tick => true
  | _, .daemon _, .vmon => true
  | _, .child _, .feed => true
  | _, .child _, .conn _ => true
  | _, _, _ => false

structure Shared (ι : Type) where
  base : Guarded.State (Party ι) Section IpcShmdata Loaded
  turn : Turn

def Turn.after (turn : Turn) : Guarded.Phase Section Loaded → Turn
  | .inside .clear _ _ => .looping
  | .inside .tick _ l => if 60 ≤ l.dog.toNat then .left else .looping
  | _ => turn

def turnAfter (s : Shared ι) : Guarded.Event (Party ι) Section → Turn
  | .unlock .supervisor => s.turn.after (s.base.phase .supervisor)
  | _ => s.turn

def allowed (s : Shared ι) : Guarded.Event (Party ι) Section → Bool
  | .begin p k => comesTo s.turn p k
  | .kill (.child _) => true
  | .kill _ => false
  | _ => true

variable [DecidableEq ι]

def step (undo : Bool) (s : Shared ι) (e : Guarded.Event (Party ι) Section) : Option (Shared ι) :=
  if allowed s e then (Guarded.step code undo s.base e).map (fun base => ⟨base,turnAfter s e⟩) else none

def system (undo : Bool) : System (Shared ι) (Guarded.Event (Party ι) Section) :=
  ⟨fun s => ∃ g, s = ⟨Guarded.initial g,.entering⟩,step undo⟩

def watched (d : Guarded.Done (Party ι) Section Loaded) : Option WatchLoop.Event := match d.part with
  | .tick => some .tick
  | .feed => some .feed
  | .conn op => some (.conn op)
  | _ => none

/- Behind the memset of the supervisor, the sections are a run of the loop that takes each as one step. -/
def Watches (turn : Turn) (past : List (Guarded.Done (Party ι) Section Loaded)) (now : IpcShmdata) : Prop :=
  ∃ before after l vmon w, past = before ++ ⟨.supervisor,.clear,some l⟩ :: after ∧
    WatchLoop.watching.run (WatchLoop.enter vmon) (after.filterMap watched) = some w ∧ w.block = now ∧
    (w.left = true ↔ turn = .left)

omit [DecidableEq ι] in
theorem Watches.next {turn later : Turn} {past : List (Guarded.Done (Party ι) Section Loaded)} {now after : IpcShmdata}
    (watches : Watches turn past now) {d : Guarded.Done (Party ι) Section Loaded}
    (moves : ∀ w : WatchLoop.Watch, w.block = now → (w.left = true ↔ turn = .left) →
      ∃ v, WatchLoop.watching.run w (watched d).toList = some v ∧ v.block = after ∧ (v.left = true ↔ later = .left)) :
    Watches later (past ++ [d]) after := by
  obtain ⟨before,behind,l,vmon,w,rfl,ran,block,left⟩ := watches
  obtain ⟨v,moved,next,gone⟩ := moves w block left
  refine ⟨before,behind ++ [d],l,vmon,v,by simp,?_,next,gone⟩
  have one : [d].filterMap watched = (watched d).toList := by
    cases seen : watched d with
    | none => simp [seen]
    | some e => simp [seen]
  rw [List.filterMap_append, one, System.runAppend, ran]
  exact moved

def cutShort : List (Guarded.Event (Party Nat) Section) :=
  [.begin .supervisor .clear,.begin (.child 0) (.conn 1),.lock .supervisor,.access .supervisor,.begin (.child 1) .feed,
    .access .supervisor,.unlock .supervisor,.lock (.child 0),.access (.child 0),.access (.child 0),.kill (.child 0),
    .lock (.child 1),.access (.child 1),.unlock (.child 1),.begin .supervisor .tick,.lock .supervisor,.access .supervisor,
    .access .supervisor,.access .supervisor,.access .supervisor,.unlock .supervisor]

end VmpRl.SharedSections
