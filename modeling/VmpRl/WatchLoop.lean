import Mathlib.Data.List.Induction
import VmpRl.LoadChild

/-! One run of `ipc_shared_proc` on a block it has attached, each section between `shm_lock` and
`shm_unlock` taken as one step: the ticks of the loop among the sections of the child. -/
namespace VmpRl.WatchLoop
open IpcShared Transition

structure Watch where
  block : IpcShmdata
  vmon : BitVec 32
  left : Bool
  deriving DecidableEq, Repr

inductive Event where
  | tick
  | feed
  | conn (op : Int)
  deriving DecidableEq, Repr

/- After the memset; `*vmon` still holds what it held before the call. -/
def enter (vmon : BitVec 32) : Watch := ⟨.zero,vmon,false⟩

def tickSection (g : IpcShmdata) : BitVec 8 × IpcShmdata :=
  let g := {g with dog := g.dog + 1}
  (g.dog,g)

def step (s : Watch) : Event → Option Watch
  | .tick =>
    if s.left then none
    else
      let (watchdog, g) := tickSection s.block
      some ⟨g,g.number,decide (60 ≤ watchdog.toNat)⟩
  | .feed => some {s with block := ipcWatchdogFeed s.block}
  | .conn op => some {s with block := (ipcStreamConn s.block op).2}

def watching : System Watch Event := ⟨fun s => ∃ vmon, s = enter vmon,step⟩

def silence (events : List Event) : Nat :=
  events.foldl (fun n e => match e with
    | .tick => n + 1
    | .feed => 0
    | .conn _ => n) 0

theorem silenceTick (past : List Event) : silence (past ++ [.tick]) = silence past + 1 := by
  simp [silence]

theorem silenceFeed (past : List Event) : silence (past ++ [.feed]) = 0 := by
  simp [silence]

theorem silenceConn (past : List Event) (op : Int) : silence (past ++ [.conn op]) = silence past := by
  simp [silence]

theorem silenceBehind (past tail : List Event) (unfed : .feed ∉ tail) :
    silence (past ++ .feed :: tail) = tail.count .tick := by
  induction tail using List.reverseRecOn with
  | nil => exact silenceFeed past
  | append_singleton tail e ih =>
    have earlier := ih (fun among => unfed (List.mem_append_left _ among))
    have shape : past ++ .feed :: (tail ++ [e]) = (past ++ .feed :: tail) ++ [e] := by simp
    rw [shape]
    cases e with
    | tick => rw [silenceTick, earlier]; simp
    | feed => simp at unfed
    | conn op => rw [silenceConn, earlier]; simp

theorem tickInv {s t : Watch} (h : step s .tick = some t) :
    s.left = false ∧ t = ⟨{s.block with dog := s.block.dog + 1},s.block.number,
      decide (60 ≤ (s.block.dog + 1).toNat)⟩ := by
  simp only [step] at h
  split at h
  · cases h
  · rename_i inside
    exact ⟨by simpa using inside,(Option.some.inj h).symm⟩

structure Counts (past : List Event) (s : Watch) : Prop where
  dog : s.block.dog.toNat = silence past
  most : silence past ≤ 60
  running : s.left = false → silence past < 60

theorem dogNext {past : List Event} {s : Watch} (c : Counts past s) (few : silence past < 60) :
    (s.block.dog + 1).toNat = silence past + 1 := by
  have one : (1 : BitVec 8).toNat = 1 := rfl
  rw [BitVec.toNat_add, one, c.dog]
  omega

theorem countsStep {past : List Event} {s t : Watch} {e : Event} (c : Counts past s)
    (h : step s e = some t) : Counts (past ++ [e]) t := by
  cases e with
  | tick =>
    obtain ⟨inside,rfl⟩ := tickInv h
    have few := c.running inside
    have next := dogNext c few
    refine ⟨?_,?_,?_⟩
    · rw [silenceTick]
      exact next
    · rw [silenceTick]
      omega
    · intro again
      have short : ¬ 60 ≤ (s.block.dog + 1).toNat := of_decide_eq_false again
      rw [silenceTick]
      omega
  | feed =>
    cases Option.some.inj h
    refine ⟨?_,?_,?_⟩
    · rw [silenceFeed]
      rfl
    · rw [silenceFeed]
      exact Nat.zero_le _
    · intro _
      rw [silenceFeed]
      decide
  | conn op =>
    cases Option.some.inj h
    refine ⟨?_,?_,?_⟩
    · rw [silenceConn]
      exact c.dog
    · rw [silenceConn]
      exact c.most
    · intro inside
      rw [silenceConn]
      exact c.running inside

theorem countsEnter (vmon : BitVec 32) : Counts [] (enter vmon) := ⟨rfl,by decide,fun _ => by decide⟩

theorem counts {vmon : BitVec 32} {events : List Event} {t : Watch}
    (ran : watching.run (enter vmon) events = some t) : Counts events t := by
  have always : watching.AllSteps (fun _ _ => True) (enter vmon) events := fun _ _ _ _ _ _ => trivial
  have kept := watching.historyInvariant (J := Counts) (fun _ _ _ _ c h _ => countsStep c h) []
    (countsEnter vmon) always ran
  simpa using kept

def Sixtieth (events : List Event) : Prop :=
  ∃ before after, events = before ++ .tick :: after ∧ silence (before ++ [.tick]) = 60

theorem sixtiethSnoc (past : List Event) (e : Event) :
    Sixtieth (past ++ [e]) ↔ Sixtieth past ∨ (e = .tick ∧ silence (past ++ [e]) = 60) := by
  constructor
  · intro h
    obtain ⟨before,after,same,sixty⟩ := h
    rcases List.eq_nil_or_concat after with rfl | ⟨others,d,rfl⟩
    · obtain ⟨rfl,last⟩ := List.append_inj' same rfl
      obtain rfl := (List.cons.inj last).1
      exact Or.inr ⟨rfl,sixty⟩
    · have cut : past ++ [e] = (before ++ .tick :: others) ++ [d] := by
        rw [same]
        simp
      exact Or.inl ⟨before,others,(List.append_inj' cut rfl).1,sixty⟩
  · intro h
    rcases h with ⟨before,after,same,sixty⟩ | ⟨rfl,sixty⟩
    · exact ⟨before,after ++ [e],by rw [same]; simp,sixty⟩
    · exact ⟨past,[],rfl,sixty⟩

theorem leftStep {past : List Event} {s t : Watch} {e : Event} (c : Counts past s)
    (h : step s e = some t) :
    t.left = true ↔ s.left = true ∨ (e = .tick ∧ silence (past ++ [e]) = 60) := by
  cases e with
  | tick =>
    obtain ⟨inside,rfl⟩ := tickInv h
    have few := c.running inside
    have next := dogNext c few
    rw [silenceTick, inside]
    simp only [decide_eq_true_eq, Bool.false_eq_true, false_or, true_and, next]
    omega
  | feed =>
    cases Option.some.inj h
    simp
  | conn op =>
    cases Option.some.inj h
    simp

theorem leftBy {vmon : BitVec 32} {events : List Event} {t : Watch}
    (ran : watching.run (enter vmon) events = some t) : t.left = true ↔ Sixtieth events := by
  induction events using List.reverseRecOn generalizing t with
  | nil =>
    cases Option.some.inj ran
    simp [enter, Sixtieth]
  | append_singleton past e ih =>
    obtain ⟨s,reached,last⟩ := watching.runCut ran
    have taken : step s e = some t := by
      simpa [System.runCons, watching] using last
    rw [sixtiethSnoc, leftStep (counts reached) taken, ih reached]

/- After every tick of a run the counter is the number of ticks since the last feed or the memset,
it has not wrapped and is at most 60, and the loop is left at the tick exactly if this number is
60; and there is no other way out of the loop. -/
theorem watchLoopExact {vmon : BitVec 32} {events : List Event} {t : Watch}
    (ran : watching.run (enter vmon) events = some t) :
    (∀ before after, events = before ++ .tick :: after →
      ∃ s u, watching.run (enter vmon) before = some s ∧ s.left = false ∧ step s .tick = some u ∧
        u.block.dog.toNat = silence (before ++ [.tick]) ∧ u.block.dog.toNat = s.block.dog.toNat + 1 ∧
        u.block.dog.toNat ≤ 60 ∧ (u.left = true ↔ silence (before ++ [.tick]) = 60)) ∧
    (t.left = true ↔ ∃ before after, events = before ++ .tick :: after ∧
      silence (before ++ [.tick]) = 60) := by
  refine ⟨?_,leftBy ran⟩
  intro before after same
  subst same
  obtain ⟨s,reached,rest⟩ := watching.runCut ran
  obtain ⟨u,first,_⟩ := Option.bind_eq_some_iff.mp rest
  have taken : step s .tick = some u := first
  have here := counts reached
  have next := countsStep here taken
  have inside := (tickInv taken).1
  have left := leftStep here taken
  have silent := here.dog
  have most := next.most
  have dog := next.dog
  refine ⟨s,u,reached,inside,taken,dog,?_,by rw [dog]; exact most,?_⟩
  · rw [dog, silenceTick, silent]
  · simpa [inside] using left

theorem fedOnce :
    ∃ t, watching.run (enter 3) (List.replicate 59 .tick ++ .feed :: List.replicate 60 .tick) = some t ∧
      t.left = true ∧ t.block.dog = 60 := by
  have ran : watching.run (enter 3) (List.replicate 59 .tick ++ .feed :: List.replicate 60 .tick) =
      some ⟨⟨60,0⟩,0,true⟩ := by decide +kernel
  have left := (watchLoopExact ran).2.mpr
    ⟨List.replicate 59 .tick ++ .feed :: List.replicate 59 .tick,[],rfl,by decide +kernel⟩
  exact ⟨_,ran,left,rfl⟩

structure Follows (w : Watch) (s : LoadChild.Supervisor) : Prop where
  block : s.block = w.block
  inside : w.left = false → s.pc = .tick
  outside : w.left = true → s.pc = .kill
  manned : s.child ≠ none

/- A tick is what the thread does from the load of the counter to its comparison, with no section of
the child in between. -/
theorem tickOfThread {s : LoadChild.Supervisor} (here : s.pc = .tick) :
    LoadChild.thread.run s [.load,.store,.look] = some {s with
      pc := .looked (tickSection s.block).1
      block := (tickSection s.block).2
      vmon := (tickSection s.block).2.number} := by
  simp [System.run, LoadChild.thread, LoadChild.step, here, tickSection]

theorem followsTick {w v : Watch} {s : LoadChild.Supervisor} (f : Follows w s) (h : step w .tick = some v) :
    ∃ events t, LoadChild.thread.run s events = some t ∧ Follows v t := by
  obtain ⟨inside,rfl⟩ := tickInv h
  have looked := tickOfThread (f.inside inside)
  rw [f.block] at looked
  by_cases many : 60 ≤ (w.block.dog + 1).toNat
  · refine ⟨[.load,.store,.look] ++ [.leave],
      {s with pc := .kill, block := (tickSection w.block).2, vmon := (tickSection w.block).2.number},?_,
      ⟨rfl,?_,fun _ => rfl,f.manned⟩⟩
    · rw [System.runAppend, looked, Option.bind_some, System.runCons]
      simp only [LoadChild.thread, LoadChild.step, tickSection, if_pos many, Option.bind_some, System.runNil]
    · intro again
      exact absurd many (of_decide_eq_false again)
  · refine ⟨[.load,.store,.look] ++ [.again],
      {s with pc := .tick, block := (tickSection w.block).2, vmon := (tickSection w.block).2.number},?_,
      ⟨rfl,fun _ => rfl,?_,f.manned⟩⟩
    · rw [System.runAppend, looked, Option.bind_some, System.runCons]
      simp only [LoadChild.thread, LoadChild.step, tickSection, if_neg many, Option.bind_some, System.runNil]
    · intro left
      exact absurd (of_decide_eq_true left) many

theorem followsFeed {w v : Watch} {s : LoadChild.Supervisor} (f : Follows w s) (h : step w .feed = some v) :
    ∃ events t, LoadChild.thread.run s events = some t ∧ Follows v t := by
  cases Option.some.inj h
  obtain ⟨c,running⟩ := Option.ne_none_iff_exists'.mp f.manned
  have free : s.excluded c = false := by
    unfold LoadChild.Supervisor.excluded
    cases gone : w.left with
    | false => simp [f.inside gone, LoadChild.Pc.inSection]
    | true => simp [f.outside gone, LoadChild.Pc.inSection]
  refine ⟨[.feed],{s with child := some c, block := ipcWatchdogFeed s.block},?_,
    ⟨by rw [f.block],f.inside,f.outside,by simp⟩⟩
  simp [System.runCons, LoadChild.thread, LoadChild.step, LoadChild.Supervisor.childStep, running, free]

theorem runFollowed {w v : Watch} {s : LoadChild.Supervisor} {events : List Event} (f : Follows w s)
    (plain : ∀ op, .conn op ∉ events) (ran : watching.run w events = some v) :
    ∃ taken t, LoadChild.thread.run s taken = some t ∧ Follows v t := by
  induction events generalizing w s with
  | nil =>
    cases Option.some.inj ran
    exact ⟨[],s,rfl,f⟩
  | cons e rest ih =>
    rw [System.runCons] at ran
    obtain ⟨u,taken,later⟩ := Option.bind_eq_some_iff.mp ran
    have first : ∃ events t, LoadChild.thread.run s events = some t ∧ Follows u t := by
      cases e with
      | tick => exact followsTick f taken
      | feed => exact followsFeed f taken
      | conn op => exact absurd List.mem_cons_self (plain op)
    obtain ⟨left,t,reached,next⟩ := first
    obtain ⟨right,z,there,last⟩ := ih next (fun op among => plain op (List.mem_cons_of_mem e among)) later
    exact ⟨left ++ right,z,by rw [System.runAppend, reached]; exact there,last⟩

end VmpRl.WatchLoop
