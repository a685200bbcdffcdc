import VmpRl.Base.Progress
import VmpRl.LoadChild

/-! The supervisor after `load_child_stop` cleared its flag: when `load_child_thread` gets out of
its loop and the loop of `ipc_shared_proc` inside it. -/
namespace VmpRl.SupervisorStop
open IpcShared Transition

def supervising : LoadChild.Event → Bool
  | .init _ | .start _ _ | .test | .enter | .load | .store | .look | .again | .leave | .kill => true
  | .stop | .feed | .streamOpen | .streamClose => false

def Over (s : LoadChild.Supervisor) : Prop := s.pc = .done ∨ s.pc = .exited ∨ s.pc = .crashed

def FeedsInside (s : LoadChild.Supervisor) : Prop :=
  ∃ c, s.child = some c ∧ ¬ (Locks s.ipcs.semid ∧ Locks c.semid)

/- The supervisor is in the loop of `ipc_shared_proc`, or goes in at its next step, and the counter
it looks at next is still small or can still be fed. -/
def Watches (s : LoadChild.Supervisor) : Prop :=
  match s.pc with
  | .enter => s.ipcs.shmbuf = .attached
  | .tick => True
  | .loaded dog => (dog + 1).toNat < 60 ∨ FeedsInside s
  | .stored => s.block.dog.toNat < 60 ∨ FeedsInside s
  | .looked watchdog => watchdog.toNat < 60
  | _ => False

def remaining : LoadChild.Pc → Nat
  | .init => 3
  | .start => 2
  | .test => 1
  | .enter => 4
  | .tick => 0
  | .loaded _ => 6
  | .stored => 5
  | .looked _ => 4
  | .kill => 3
  | .restart => 2
  | .done => 0
  | .exited => 0
  | .crashed => 0

def Manned (s : LoadChild.Supervisor) : Prop :=
  s.child = none → s.pc = .init ∨ s.pc = .start ∨ s.pc = .restart ∨ s.pc = .exited

theorem Manned.running {s : LoadChild.Supervisor} (m : Manned s)
    (inside : s.pc ≠ .init ∧ s.pc ≠ .start ∧ s.pc ≠ .restart ∧ s.pc ≠ .exited) :
    ∃ c, s.child = some c := by
  apply Option.ne_none_iff_exists'.mp
  intro none
  rcases m none with h | h | h | h
  · exact inside.1 h
  · exact inside.2.1 h
  · exact inside.2.2.1 h
  · exact inside.2.2.2 h

theorem Manned.kept {s t : LoadChild.Supervisor} (m : Manned s)
    (inside : s.pc ≠ .init ∧ s.pc ≠ .start ∧ s.pc ≠ .restart ∧ s.pc ≠ .exited)
    (child : t.child = s.child) : Manned t := by
  obtain ⟨c,running⟩ := m.running inside
  intro none
  rw [child, running] at none
  cases none

theorem mannedStep {s t : LoadChild.Supervisor} {e : LoadChild.Event} (m : Manned s)
    (h : LoadChild.step s e = some t) : Manned t := by
  cases e with
  | init calls =>
    obtain ⟨_,rfl⟩ := LoadChild.initInv h
    exact fun _ => Or.inr (Or.inl rfl)
  | start fork semid =>
    obtain ⟨_,⟨_,rfl⟩ | ⟨_,rfl⟩⟩ := LoadChild.startInv h
    · intro none
      cases none
    · exact fun _ => Or.inr (Or.inr (Or.inr rfl))
  | test =>
    obtain ⟨here,rfl⟩ := LoadChild.testInv h
    exact m.kept (by simp [here]) rfl
  | enter =>
    obtain ⟨here,⟨_,rfl⟩ | ⟨_,rfl⟩ | ⟨_,rfl⟩⟩ := LoadChild.enterInv h
    · exact m.kept (by simp [here]) rfl
    · exact m.kept (by simp [here]) rfl
    · exact m.kept (by simp [here]) rfl
  | load =>
    obtain ⟨here,rfl⟩ := LoadChild.loadInv h
    exact m.kept (by simp [here]) rfl
  | store =>
    obtain ⟨dog,here,rfl⟩ := LoadChild.storeInv h
    exact m.kept (by simp [here]) rfl
  | look =>
    obtain ⟨here,rfl⟩ := LoadChild.lookInv h
    exact m.kept (by simp [here]) rfl
  | again =>
    obtain ⟨watchdog,here,_,rfl⟩ := LoadChild.againInv h
    exact m.kept (by simp [here]) rfl
  | leave =>
    obtain ⟨watchdog,here,_,rfl⟩ := LoadChild.leaveInv h
    exact m.kept (by simp [here]) rfl
  | kill =>
    obtain ⟨_,rfl⟩ := LoadChild.killInv h
    exact fun _ => Or.inr (Or.inr (Or.inl rfl))
  | stop =>
    cases Option.some.inj h
    exact m
  | feed | streamOpen | streamClose =>
    obtain ⟨c,after,_,_,_,rfl⟩ := LoadChild.childStepInv h
    intro none
    cases none

theorem reachableManned {s : LoadChild.Supervisor} (reached : LoadChild.thread.Reachable s) : Manned s := by
  apply LoadChild.thread.reachableInvariant _ _ reached
  · intro s h _
    obtain ⟨block,rfl⟩ := h
    exact Or.inl rfl
  · exact fun s e t m h => mannedStep m h

theorem watchesInside {s : LoadChild.Supervisor} (inside : s.pc.inSection = true) (feeds : FeedsInside s) :
    Watches s := by
  obtain ⟨pc,cond,ipcs,block,vmon,child,killed⟩ := s
  cases pc with
  | loaded dog => exact Or.inr feeds
  | stored => exact Or.inr feeds
  | _ => cases inside

theorem watchesOutside {s : LoadChild.Supervisor} (outside : s.pc.inSection = false)
    {child : Option LoadChild.Child} {block : IpcShmdata} :
    Watches {s with child := child, block := block} ↔ Watches s := by
  obtain ⟨pc,cond,ipcs,shared,vmon,running,killed⟩ := s
  cases pc with
  | loaded dog => cases outside
  | stored => cases outside
  | _ => exact Iff.rfl

theorem childKeeps {s t : LoadChild.Supervisor}
    {act : LoadChild.Child → Option (LoadChild.Child × IpcShmdata)}
    (h : s.childStep act = some t) (leaves : ¬ Watches s) : t.cond = s.cond ∧ t.pc = s.pc ∧ ¬ Watches t := by
  obtain ⟨c,after,running,entered,_,rfl⟩ := LoadChild.childStepInv h
  refine ⟨rfl,rfl,?_⟩
  cases place : s.pc.inSection with
  | true =>
    have feeds : FeedsInside s := ⟨c,running,by simpa [LoadChild.Supervisor.excluded, place] using entered⟩
    exact absurd (watchesInside place feeds) leaves
  | false => exact fun watches => leaves ((watchesOutside place).mp watches)

/- With the flag 0 and the watch loop behind it, each of its own steps takes the thread nearer to
its end, and no other step takes it back. -/
theorem remainingStep {s t : LoadChild.Supervisor} {e : LoadChild.Event}
    (stopped : s.cond = false ∧ ¬ Watches s) (h : LoadChild.step s e = some t) :
    (t.cond = false ∧ ¬ Watches t) ∧
      remaining t.pc + (if supervising e then 1 else 0) ≤ remaining s.pc := by
  obtain ⟨cleared,leaves⟩ := stopped
  cases e with
  | init calls =>
    obtain ⟨here,rfl⟩ := LoadChild.initInv h
    exact ⟨⟨cleared,id⟩,by rw [here]; exact Nat.le_refl _⟩
  | start fork semid =>
    obtain ⟨here,⟨_,rfl⟩ | ⟨_,rfl⟩⟩ := LoadChild.startInv h
    · refine ⟨⟨cleared,id⟩,?_⟩
      rcases here with here | here <;> rw [here] <;> exact Nat.le_refl _
    · refine ⟨⟨cleared,id⟩,?_⟩
      rcases here with here | here <;> rw [here] <;> exact Nat.le_succ _
  | test =>
    obtain ⟨here,rfl⟩ := LoadChild.testInv h
    rw [cleared, here]
    exact ⟨⟨rfl,id⟩,Nat.le_refl _⟩
  | enter =>
    obtain ⟨here,⟨_,rfl⟩ | ⟨_,rfl⟩ | ⟨buf,_⟩⟩ := LoadChild.enterInv h
    · exact ⟨⟨cleared,id⟩,by rw [here]; exact Nat.le_refl _⟩
    · exact ⟨⟨cleared,id⟩,by rw [here]; exact Nat.succ_pos 3⟩
    · exact absurd (by simpa [Watches, here] using buf) leaves
  | load =>
    obtain ⟨here,_⟩ := LoadChild.loadInv h
    exact absurd (by simp [Watches, here]) leaves
  | store =>
    obtain ⟨dog,here,rfl⟩ := LoadChild.storeInv h
    refine ⟨⟨cleared,?_⟩,by rw [here]; exact Nat.le_refl _⟩
    intro watches
    apply leaves
    rw [Watches, here]
    exact watches
  | look =>
    obtain ⟨here,rfl⟩ := LoadChild.lookInv h
    refine ⟨⟨cleared,?_⟩,by rw [here]; exact Nat.le_refl _⟩
    intro few
    apply leaves
    rw [Watches, here]
    exact Or.inl few
  | again =>
    obtain ⟨watchdog,here,few,_⟩ := LoadChild.againInv h
    exact absurd (by rw [Watches, here]; exact few) leaves
  | leave =>
    obtain ⟨watchdog,here,_,rfl⟩ := LoadChild.leaveInv h
    exact ⟨⟨cleared,id⟩,by rw [here]; exact Nat.le_refl _⟩
  | kill =>
    obtain ⟨here,rfl⟩ := LoadChild.killInv h
    exact ⟨⟨cleared,id⟩,by rw [here]; exact Nat.le_refl _⟩
  | stop =>
    cases Option.some.inj h
    exact ⟨⟨rfl,leaves⟩,Nat.le_refl _⟩
  | feed | streamOpen | streamClose =>
    obtain ⟨flag,same,still⟩ := childKeeps h leaves
    exact ⟨⟨flag.trans cleared,still⟩,by rw [same]; exact Nat.le_refl _⟩

theorem supervisorFree {s : LoadChild.Supervisor} (runs : ¬ Over s) :
    ∃ e t, supervising e = true ∧ LoadChild.step s e = some t := by
  obtain ⟨pc,cond,ipcs,block,vmon,child,killed⟩ := s
  cases pc with
  | init => exact ⟨.init LoadChild.goodCalls,_,rfl,rfl⟩
  | start => exact ⟨.start true 0,_,rfl,rfl⟩
  | test => exact ⟨.test,_,rfl,rfl⟩
  | enter =>
    obtain ⟨semid,shmid,buf⟩ := ipcs
    cases buf with
    | null => exact ⟨.enter,_,rfl,rfl⟩
    | failed => exact ⟨.enter,_,rfl,rfl⟩
    | attached => exact ⟨.enter,_,rfl,rfl⟩
  | tick => exact ⟨.load,_,rfl,rfl⟩
  | loaded dog => exact ⟨.store,_,rfl,rfl⟩
  | stored => exact ⟨.look,_,rfl,rfl⟩
  | looked watchdog =>
    by_cases many : 60 ≤ watchdog.toNat
    · exact ⟨.leave,_,rfl,if_pos many⟩
    · exact ⟨.again,_,rfl,if_neg many⟩
  | kill => exact ⟨.kill,_,rfl,rfl⟩
  | restart => exact ⟨.start true 0,_,rfl,rfl⟩
  | done => exact absurd (Or.inl rfl) runs
  | exited => exact absurd (Or.inr (Or.inl rfl)) runs
  | crashed => exact absurd (Or.inr (Or.inr rfl)) runs

theorem feedTaken {s : LoadChild.Supervisor} {c : LoadChild.Child} (running : s.child = some c)
    (entered : s.excluded c = false) :
    LoadChild.thread.step s .feed = some {s with child := some c, block := ipcWatchdogFeed s.block} := by
  simp [LoadChild.thread, LoadChild.step, LoadChild.Supervisor.childStep, running, entered]

theorem tickAgain {s u : LoadChild.Supervisor} {events : List LoadChild.Event} {watchdog : BitVec 8}
    (ran : LoadChild.thread.run s events = some u) (here : u.pc = .looked watchdog)
    (few : watchdog.toNat < 60) (manned : ∃ c, u.child = some c) :
    ∃ events t, LoadChild.thread.run s events = some t ∧ (Watches t ∧ ∃ c, t.child = some c) ∧
      0 < events.countP supervising := by
  have taken : LoadChild.thread.step u .again = some {u with pc := .tick} := by
    simp [LoadChild.thread, LoadChild.step, here, few]
  refine ⟨events ++ [.again],{u with pc := .tick},?_,⟨trivial,manned⟩,?_⟩
  · rw [System.runAppend, ran]
    exact LoadChild.thread.runTaken taken []
  · rw [List.countP_append]
    exact Nat.succ_pos _

theorem watchTurn {s : LoadChild.Supervisor} (watched : Watches s ∧ ∃ c, s.child = some c) :
    ∃ events t, LoadChild.thread.run s events = some t ∧ (Watches t ∧ ∃ c, t.child = some c) ∧
      0 < events.countP supervising := by
  obtain ⟨watches,c,running⟩ := watched
  obtain ⟨pc,cond,ipcs,block,vmon,child,killed⟩ := s
  obtain rfl : child = some c := running
  cases pc with
  | enter =>
    obtain ⟨semid,shmid,buf⟩ := ipcs
    obtain rfl : buf = .attached := watches
    exact ⟨[.enter],_,rfl,⟨trivial,c,rfl⟩,Nat.succ_pos _⟩
  | tick =>
    have ran : LoadChild.thread.run ⟨.tick,cond,ipcs,block,vmon,some c,killed⟩ [.feed,.load,.store,.look] =
        some ⟨.looked 1,cond,ipcs,⟨1,block.number⟩,block.number,some c,killed⟩ := rfl
    exact tickAgain ran rfl (by decide) ⟨c,rfl⟩
  | loaded dog =>
    rcases watches with few | ⟨d,there,apart⟩
    · have ran : LoadChild.thread.run ⟨.loaded dog,cond,ipcs,block,vmon,some c,killed⟩ [.store,.look] =
          some ⟨.looked (dog + 1),cond,ipcs,⟨dog + 1,block.number⟩,block.number,some c,killed⟩ := rfl
      exact tickAgain ran rfl few ⟨c,rfl⟩
    · obtain rfl : c = d := Option.some.inj there
      have entered : LoadChild.Supervisor.excluded
          ⟨.stored,cond,ipcs,⟨dog + 1,block.number⟩,vmon,some c,killed⟩ c = false := by
        simpa [LoadChild.Supervisor.excluded, LoadChild.Pc.inSection] using apart
      have ran : LoadChild.thread.run ⟨.loaded dog,cond,ipcs,block,vmon,some c,killed⟩ [.store,.feed,.look] =
          some ⟨.looked 0,cond,ipcs,⟨0,block.number⟩,block.number,some c,killed⟩ := by
        rw [LoadChild.thread.runTaken (e := .store) rfl, LoadChild.thread.runTaken (feedTaken rfl entered)]
        rfl
      exact tickAgain ran rfl (by decide) ⟨c,rfl⟩
  | stored =>
    rcases watches with few | ⟨d,there,apart⟩
    · have ran : LoadChild.thread.run ⟨.stored,cond,ipcs,block,vmon,some c,killed⟩ [.look] =
          some ⟨.looked block.dog,cond,ipcs,block,block.number,some c,killed⟩ := rfl
      exact tickAgain ran rfl few ⟨c,rfl⟩
    · obtain rfl : c = d := Option.some.inj there
      have entered : LoadChild.Supervisor.excluded ⟨.stored,cond,ipcs,block,vmon,some c,killed⟩ c = false := by
        simpa [LoadChild.Supervisor.excluded, LoadChild.Pc.inSection] using apart
      have ran : LoadChild.thread.run ⟨.stored,cond,ipcs,block,vmon,some c,killed⟩ [.feed,.look] =
          some ⟨.looked 0,cond,ipcs,⟨0,block.number⟩,block.number,some c,killed⟩ := by
        rw [LoadChild.thread.runTaken (feedTaken rfl entered)]
        rfl
      exact tickAgain ran rfl (by decide) ⟨c,rfl⟩
  | looked watchdog =>
    have here : LoadChild.thread.run ⟨.looked watchdog,cond,ipcs,block,vmon,some c,killed⟩ [] =
        some ⟨.looked watchdog,cond,ipcs,block,vmon,some c,killed⟩ := rfl
    exact tickAgain here rfl watches ⟨c,rfl⟩
  | init | start | test | kill | restart | done | exited | crashed => exact absurd watches id

theorem Watches.inside {s : LoadChild.Supervisor} (watches : Watches s) :
    s.pc ≠ .init ∧ s.pc ≠ .start ∧ s.pc ≠ .restart ∧ s.pc ≠ .exited := by
  refine ⟨?_,?_,?_,?_⟩ <;> intro here <;> simp [Watches, here] at watches

theorem supervisorLeaves {s : LoadChild.Supervisor} (reached : LoadChild.thread.Reachable s)
    (cleared : s.cond = false) : LoadChild.thread.Leaves supervising Over s ↔ ¬ Watches s := by
  constructor
  · intro leaves watches
    have manned := (reachableManned reached).running watches.inside
    exact LoadChild.thread.staysByLoop (fun _ watched => watchTurn watched) ⟨watches,manned⟩ leaves
  · intro leaves
    exact LoadChild.thread.leavesByRank (fun s => s.cond = false ∧ ¬ Watches s)
      (fun s => remaining s.pc) (fun _ _ _ stopped h => remainingStep stopped h)
      (fun _ _ runs => supervisorFree runs) ⟨cleared,leaves⟩

end VmpRl.SupervisorStop
