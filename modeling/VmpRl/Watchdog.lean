import Mathlib.Data.List.Induction
import VmpRl.LoadChild

/-! When the supervisor kills: an observer that sees only the steps counts the ticks since the
last feed or clear, and what it counted is compared with the kills. -/
namespace VmpRl.Watchdog
open IpcShared LoadChild Transition

structure Watched where
  silence : Nat
  counted : Nat
  deriving DecidableEq, Repr

def Watched.see (w : Watched) : Event → Watched
  | .enter => ⟨0,0⟩
  | .feed => {w with silence := 0}
  | .store => {w with silence := w.silence + 1}
  | .look => {w with counted := w.silence}
  | _ => w

def observe (events : List Event) : Watched := events.foldl Watched.see ⟨0,0⟩

/- `kill_app` runs in the outer loop and where `vmp_run_process` could not fork. -/
def Kills : Event → Prop
  | .kill => True
  | .start fork _ => fork = false
  | _ => False

/- The segment is there when the watch loop is entered, the first fork succeeds, and no feed
falls between the load and the store of `dog++`. -/
def Watches (s : Supervisor) : Event → Prop
  | .enter => s.ipcs.shmbuf ≠ .null
  | .start fork _ => s.pc = .start → fork = true
  | .feed => ∀ dog, s.pc ≠ .loaded dog
  | _ => True

def Vigilant (w : Watched) (s : Supervisor) : Prop := match s.pc with
  | .tick => s.block.dog.toNat = w.silence ∧ w.silence < 60
  | .loaded dog => dog.toNat = w.silence ∧ w.silence < 60
  | .stored => s.block.dog.toNat = w.silence ∧ w.silence ≤ 60
  | .looked watchdog => watchdog.toNat = w.counted ∧ s.block.dog.toNat = w.silence ∧
      w.silence ≤ w.counted ∧ w.counted ≤ 60
  | .kill => w.counted = 60
  | .restart => w.counted = 60
  | _ => True

theorem observeSnoc (past : List Event) (e : Event) : observe (past ++ [e]) = (observe past).see e := by
  simp [observe]

theorem vigilantFeed {w : Watched} {s : Supervisor} (v : Vigilant w s) (free : ∀ dog, s.pc ≠ .loaded dog)
    (child : Option Child) :
    Vigilant {w with silence := 0} {s with child := child, block := ipcWatchdogFeed s.block} := by
  unfold Vigilant at v ⊢
  simp only [ipcWatchdogFeed] at v ⊢
  cases hp : s.pc with
  | loaded dog => exact absurd hp (free dog)
  | looked watchdog =>
    rw [hp] at v
    exact ⟨v.1,rfl,Nat.zero_le _,v.2.2.2⟩
  | kill =>
    rw [hp] at v
    exact v
  | restart =>
    rw [hp] at v
    exact v
  | tick => exact ⟨rfl,by decide⟩
  | stored => exact ⟨rfl,by decide⟩
  | init | start | test | enter | done | exited | crashed => trivial

theorem vigilantStore {w : Watched} {s t : Supervisor} (v : Vigilant w s) (h : step s .store = some t) :
    Vigilant (w.see .store) t := by
  obtain ⟨dog,here,rfl⟩ := storeInv h
  unfold Vigilant at v
  rw [here] at v
  have one : (1 : BitVec 8).toNat = 1 := rfl
  have next : (dog + 1).toNat = dog.toNat + 1 := by
    rw [BitVec.toNat_add, one]
    omega
  show (dog + 1).toNat = w.silence + 1 ∧ w.silence + 1 ≤ 60
  omega

theorem vigilantAgain {w : Watched} {s t : Supervisor} (v : Vigilant w s) (h : step s .again = some t) :
    Vigilant (w.see .again) t := by
  obtain ⟨watchdog,here,few,rfl⟩ := againInv h
  unfold Vigilant at v
  rw [here] at v
  obtain ⟨seen,dog,least,_⟩ := v
  exact ⟨dog,by simp only [Watched.see]; omega⟩

theorem vigilantLeave {w : Watched} {s t : Supervisor} (v : Vigilant w s) (h : step s .leave = some t) :
    Vigilant (w.see .leave) t := by
  obtain ⟨watchdog,here,many,rfl⟩ := leaveInv h
  unfold Vigilant at v
  rw [here] at v
  obtain ⟨seen,_,_,most⟩ := v
  show w.counted = 60
  omega

theorem vigilantStep {w : Watched} {s t : Supervisor} {e : Event} (v : Vigilant w s)
    (h : step s e = some t) (good : Watches s e) : Vigilant (w.see e) t := by
  cases e with
  | init calls =>
    obtain ⟨_,rfl⟩ := initInv h
    trivial
  | start fork semid =>
    obtain ⟨_,⟨_,rfl⟩ | ⟨_,rfl⟩⟩ := startInv h
    · trivial
    · trivial
  | test =>
    obtain ⟨_,rfl⟩ := testInv h
    cases s.cond with
    | true => trivial
    | false => trivial
  | enter =>
    obtain ⟨_,⟨buf,_⟩ | ⟨_,rfl⟩ | ⟨_,rfl⟩⟩ := enterInv h
    · exact absurd buf good
    · trivial
    · exact ⟨rfl,by simp [Watched.see]⟩
  | load =>
    obtain ⟨here,rfl⟩ := loadInv h
    unfold Vigilant at v
    rw [here] at v
    exact v
  | store => exact vigilantStore v h
  | look =>
    obtain ⟨here,rfl⟩ := lookInv h
    unfold Vigilant at v
    rw [here] at v
    exact ⟨v.1,v.1,Nat.le_refl _,v.2⟩
  | again => exact vigilantAgain v h
  | leave => exact vigilantLeave v h
  | kill =>
    obtain ⟨here,rfl⟩ := killInv h
    unfold Vigilant at v
    rw [here] at v
    exact v
  | stop =>
    cases Option.some.inj h
    exact v
  | feed =>
    obtain ⟨c,after,_,_,acted,rfl⟩ := childStepInv h
    cases Option.some.inj acted
    exact vigilantFeed v good (some c)
  | streamOpen =>
    obtain ⟨c,after,_,_,acted,rfl⟩ := childStepInv h
    cases Option.some.inj acted
    exact v
  | streamClose =>
    obtain ⟨c,after,_,_,acted,rfl⟩ := childStepInv h
    split at acted
    · cases Option.some.inj acted
      exact v
    · cases acted

theorem vigilant {block : IpcShmdata} {events : List Event} {t : Supervisor}
    (ran : thread.run (.initial block) events = some t)
    (met : thread.AllSteps Watches (.initial block) events) : Vigilant (observe events) t := by
  have kept := thread.historyInvariant (J := fun past s => Vigilant (observe past) s)
    (fun past s e t v h good => by rw [observeSnoc]; exact vigilantStep v h good)
    [] (s := .initial block) trivial met ran
  simpa using kept

theorem countedSeen (events : List Event) :
    ∃ before after, events = before ++ after ∧ (observe before).silence = (observe events).counted := by
  induction events using List.reverseRecOn with
  | nil => exact ⟨[],[],rfl,rfl⟩
  | append_singleton past e ih =>
    obtain ⟨before,after,same,seen⟩ := ih
    have earlier : past ++ [e] = before ++ (after ++ [e]) := by rw [same, List.append_assoc]
    rw [observeSnoc]
    cases e with
    | enter => exact ⟨[],past ++ [.enter],rfl,rfl⟩
    | look => exact ⟨past,[.look],rfl,rfl⟩
    | init | start | test | load | store | again | leave | kill | stop | feed | streamOpen | streamClose =>
      exact ⟨before,_,earlier,seen⟩

theorem killCounted {w : Watched} {s t : Supervisor} {e : Event} (v : Vigilant w s)
    (h : step s e = some t) (good : Watches s e) (kills : Kills e) : w.counted = 60 := by
  cases e with
  | kill =>
    unfold Vigilant at v
    rw [(killInv h).1] at v
    exact v
  | start fork semid =>
    obtain ⟨here | here,_⟩ := startInv h
    · have forked := good here
      have failed : fork = false := kills
      rw [forked] at failed
      cases failed
    · unfold Vigilant at v
      rw [here] at v
      exact v
  | init | test | enter | load | store | look | again | leave | stop | feed | streamOpen | streamClose =>
    exact absurd kills id

/- In a run whose steps keep the watch, `kill_app` comes after 60 ticks without a feed only, and
not at all when no 60 ticks pass without one. -/
theorem killsOnlySilent {block : IpcShmdata} {events : List Event} {t : Supervisor}
    (ran : thread.run (.initial block) events = some t)
    (met : thread.AllSteps Watches (.initial block) events) :
    (∀ before e after, events = before ++ e :: after → Kills e → (observe before).counted = 60) ∧
    ((∀ before after, events = before ++ after → (observe before).silence < 60) →
      ∀ e ∈ events, ¬ Kills e) := by
  have counted : ∀ before e after, events = before ++ e :: after → Kills e →
      (observe before).counted = 60 := by
    intro before e after same kills
    subst same
    obtain ⟨s,reached,rest⟩ := thread.runCut ran
    obtain ⟨u,taken,_⟩ := Option.bind_eq_some_iff.mp rest
    have earlier : thread.AllSteps Watches (.initial block) before := by
      intro left d right u split there
      exact met left d (right ++ e :: after) u (by rw [split]; simp) there
    exact killCounted (vigilant reached earlier) taken (met before e after s rfl reached) kills
  refine ⟨counted,?_⟩
  intro fed e member kills
  obtain ⟨before,after,same⟩ := List.append_of_mem member
  have sixty := counted before e after same kills
  obtain ⟨left,right,split,seen⟩ := countedSeen before
  have few := fed left (right ++ e :: after) (by rw [same, split, List.append_assoc])
  omega

def always : Event → Bool
  | .enter => false
  | .start fork _ => fork
  | .feed => false
  | _ => true

theorem alwaysWatches {events : List Event} (free : events.all always = true) (s : Supervisor) :
    thread.AllSteps Watches s events := by
  intro before e after u same _
  have member : e ∈ events := by simp [same]
  have here := List.all_eq_true.mp free e member
  cases e with
  | start fork semid => exact fun _ => here
  | enter => cases here
  | feed => cases here
  | init | test | load | store | look | again | leave | kill | stop | streamOpen | streamClose => trivial

theorem silenceBounded (events : List Event) : (observe events).silence ≤ events.length := by
  induction events using List.reverseRecOn with
  | nil => exact Nat.le_refl 0
  | append_singleton past e ih =>
    rw [observeSnoc, List.length_append, List.length_singleton]
    cases e <;> simp only [Watched.see] <;> omega

def watched : List Event := [.init goodCalls,.start true 2,.test,.enter]
def tick : List Event := [.load,.store,.look,.again]
def lastTick : List Event := [.load,.store,.look,.leave]

def watchedState : Supervisor :=
  {Supervisor.initial .zero with pc := .tick, ipcs := ⟨2,4,.attached⟩, child := some ⟨0,0,2⟩}

theorem watchedSteps : thread.AllSteps Watches (.initial .zero) watched := by
  have first : thread.AllSteps Watches (.initial .zero) [.init goodCalls,.start true 2,.test] :=
    alwaysWatches rfl (.initial .zero)
  refine thread.allStepsAppend rfl first ?_
  refine (thread.allStepsCons rfl).mpr ⟨?_,thread.allStepsNil _ _⟩
  intro null
  cases null

set_option maxRecDepth 4000 in
theorem silentChildKilled : ∃ t u,
    thread.run (.initial .zero)
      (watched ++ (List.replicate 59 tick).flatten ++ lastTick ++ [.kill]) = some t ∧
    (observe (watched ++ (List.replicate 59 tick).flatten ++ lastTick)).counted = 60 ∧
    thread.run (.initial .zero) (watched ++ tick ++ [.feed]) = some u ∧
    ∀ e ∈ watched ++ tick ++ [.feed], ¬ Kills e := by
  have silentSteps : thread.AllSteps Watches (.initial .zero)
      (watched ++ (List.replicate 59 tick).flatten ++ lastTick ++ [.kill]) := by
    rw [List.append_assoc, List.append_assoc]
    exact thread.allStepsAppend rfl watchedSteps (alwaysWatches (by decide) watchedState)
  have fedSteps : thread.AllSteps Watches (.initial .zero) (watched ++ tick ++ [.feed]) := by
    rw [List.append_assoc]
    refine thread.allStepsAppend rfl watchedSteps ?_
    refine thread.allStepsAppend rfl (alwaysWatches (by decide) watchedState) ?_
    refine (thread.allStepsCons rfl).mpr ⟨?_,thread.allStepsNil _ _⟩
    intro dog loaded
    cases loaded
  have silent := killsOnlySilent rfl silentSteps
  have fed := killsOnlySilent rfl fedSteps
  refine ⟨_,_,rfl,silent.1 _ .kill [] rfl trivial,rfl,fed.2 ?_⟩
  intro before after same
  have few := silenceBounded before
  have total : (watched ++ tick ++ [Event.feed]).length = 9 := rfl
  rw [same, List.length_append] at total
  omega

def failedCalls : IpcCalls := ⟨1,2,0,3,-1,.null⟩

/- Without the segment the child is killed right after its start. -/
theorem killedAtOnce : ∃ t,
    thread.run (.initial .zero) [.init failedCalls,.start true 2,.test,.enter,.kill] = some t ∧
    Kills .kill ∧
    (observe [.init failedCalls,.start true 2,.test,.enter]).counted ≠ 60 :=
  ⟨_,rfl,trivial,by decide⟩

end VmpRl.Watchdog
