import VmpRl.Base.Transition
import VmpRl.LoadInterfaces

/-! `sc_node_state_func` beside `system_net_proc`: the thread of the sampler stores the figures of a pass one by one,
and a request reads them one by one, in any order of the steps of the two. -/
namespace VmpRl.NodeStateReads
open CRuntime Nmon LoadSystem LoadIndependence LoadInterfaces Transition

inductive Store where
  | uplink (v : Rate)
  | downlink (v : Rate)
  | cpuIdle (v : Int × Int)
  | memTotal (v : Int)
  | memFree (v : Int)
  deriving DecidableEq, Repr

def Store.run (thiz : PrivInfo) : Store → PrivInfo
  | .uplink v => {thiz with uplink := v}
  | .downlink v => {thiz with downlink := v}
  | .cpuIdle v => {thiz with cpuIdle := v}
  | .memTotal v => {thiz with memTotal := v}
  | .memFree v => {thiz with memFree := v}

def storesOf (r : Report) (mem : MemStat) : List Store :=
  r.rates.flatMap (fun rate => [.uplink rate.1,.downlink rate.2]) ++
    [.cpuIdle (r.cpuIdle,r.cpuSum),.memTotal mem.memtotal,.memFree mem.memfree]

def memOf (m : Frame) : MemStat := (m.sysData m.p).mem

structure Figures where
  memTotal : Int
  uplink : Rate
  downlink : Rate
  memFree : Int
  cpuIdle : Int × Int
  deriving DecidableEq, Repr

def figuresOf (thiz : PrivInfo) : Figures := ⟨thiz.memTotal,thiz.uplink,thiz.downlink,thiz.memFree,thiz.cpuIdle⟩

inductive Getter where
  | memTotal | uplink | downlink | memFree | cpu
  deriving DecidableEq, Repr

def Getter.read (thiz : PrivInfo) (f : Figures) : Getter → Figures
  | .memTotal => {f with memTotal := thiz.memTotal}
  | .uplink => {f with uplink := thiz.uplink}
  | .downlink => {f with downlink := thiz.downlink}
  | .memFree => {f with memFree := thiz.memFree}
  | .cpu => {f with cpuIdle := thiz.cpuIdle}

def Getter.next : Getter → Option Getter
  | .memTotal => some .uplink
  | .uplink => some .downlink
  | .downlink => some .memFree
  | .memFree => some .cpu
  | .cpu => none

def Getter.rank : Getter → Nat
  | .memTotal => 0
  | .uplink => 1
  | .downlink => 2
  | .memFree => 3
  | .cpu => 4

structure Request where
  first : Nat
  pc : Getter
  figures : Figures
  deriving DecidableEq, Repr

structure Answer where
  first : Nat
  last : Nat
  figures : Figures
  deriving DecidableEq, Repr

def Answer.memory (a : Answer) : BitVec 64 := BitVec.ofInt 64 (a.figures.memTotal - a.figures.memFree)

/- `frame` is that of the sampler behind the pass that it computed last, `todo` what it has not stored of it. -/
structure State where
  frame : Frame
  thiz : PrivInfo
  todo : List Store
  begun : Nat
  request : Option Request
  answers : List Answer

def State.completed (s : State) : Nat := if s.todo = [] then s.begun else s.begun - 1

inductive Event where
  | sample
  | store
  | ask (before : Figures)
  | read
  deriving DecidableEq, Repr

/- What a response holds before the first read is whatever its memory held. -/
def step (seen : Nat → Seen) (s : State) : Event → Option State
  | .sample => match s.todo with
    | _ :: _ => none
    | [] => match LoadSystem.pass (seen (s.begun + 1)) s.frame with
      | .error _ => none
      | .ok next => some {s with frame := next, todo := storesOf next.report (memOf next), begun := s.begun + 1}
  | .store => match s.todo with
    | [] => none
    | st :: rest => some {s with thiz := st.run s.thiz, todo := rest}
  | .ask before => match s.request with
    | some _ => none
    | none => some {s with request := some ⟨s.completed,.memTotal,before⟩}
  | .read => match s.request with
    | none => none
    | some r =>
      let figures := r.pc.read s.thiz r.figures
      match r.pc.next with
      | some pc => some {s with request := some ⟨r.first,pc,figures⟩}
      | none => some {s with request := none, answers := s.answers ++ [⟨r.first,s.begun,figures⟩]}

def system (first : Frame) (seen : Nat → Seen) : System State Event :=
  ⟨fun s => ∃ m, passes first seen 0 = .ok m ∧ s = ⟨m,m.thiz,[],0,none,[]⟩,step seen⟩

theorem ratesStored (rates : List (Rate × Rate)) (thiz : PrivInfo) :
    (rates.flatMap (fun rate => [Store.uplink rate.1,Store.downlink rate.2])).foldl Store.run thiz =
      {thiz with uplink := (rates.getLast?.map Prod.fst).getD thiz.uplink,
                 downlink := (rates.getLast?.map Prod.snd).getD thiz.downlink} := by
  induction rates generalizing thiz with
  | nil => rfl
  | cons rate rest ih =>
    rw [List.flatMap_cons, List.foldl_append, ih]
    cases rest with
    | nil => rfl
    | cons other others =>
      rw [List.getLast?_cons_cons]
      obtain ⟨last,isLast⟩ := Option.isSome_iff_exists.mp
        (List.getLast?_isSome.mpr (List.cons_ne_nil other others))
      simp [isLast, Store.run]

theorem storesPublish (r : Report) (mem : MemStat) (thiz : PrivInfo) :
    (storesOf r mem).foldl Store.run thiz = thiz.publish r mem := by
  unfold storesOf
  rw [List.foldl_append, ratesStored]
  rfl

theorem passPublishes {seen : Seen} {m next : Frame} (ran : LoadSystem.pass seen m = .ok next) :
    next.thiz = m.thiz.publish next.report (memOf next) := by
  unfold LoadSystem.pass at ran
  simp only [bind, Except.bind] at ran
  split at ran
  · cases ran
  · split at ran
    · cases ran
    · split at ran
      · cases ran
      · split at ran
        · cases ran
        · cases Except.ok.inj ran
          unfold memOf
          rw [dataSwitched]
          simp

section Runs
variable {first : Frame} {seen : Nat → Seen}

def Published (first : Frame) (seen : Nat → Seen) {β : Type} (get : PrivInfo → β) (low high : Nat) (v : β) : Prop :=
  ∃ k m, low ≤ k ∧ k ≤ high ∧ passes first seen k = .ok m ∧ v = get m.thiz

def PublishedRate (first : Frame) (seen : Nat → Seen) (get : PrivInfo → Rate) (pick : Rate × Rate → Rate)
    (low high : Nat) (v : Rate) : Prop :=
  (∃ m, passes first seen low = .ok m ∧ v = get m.thiz) ∨
  ∃ k m, low < k ∧ k ≤ high ∧ passes first seen k = .ok m ∧ v ∈ m.report.rates.map pick

def PublishedMemory (first : Frame) (seen : Nat → Seen) (low high : Nat) (total free : Int) : Prop :=
  ∃ i j m n, low ≤ i ∧ i ≤ high ∧ low ≤ j ∧ j ≤ high ∧ i ≤ j + 1 ∧ passes first seen i = .ok m ∧
    passes first seen j = .ok n ∧ total = m.thiz.memTotal ∧ free = n.thiz.memFree

structure Stored (first : Frame) (seen : Nat → Seen) (s : State) : Prop where
  frame : passes first seen s.begun = .ok s.frame
  published : s.begun ≠ 0 → ∃ before : PrivInfo, s.frame.thiz = before.publish s.frame.report (memOf s.frame)
  whole : s.todo = [] → s.thiz = s.frame.thiz
  part : s.todo ≠ [] → ∃ k before done, s.begun = k + 1 ∧ passes first seen k = .ok before ∧
    storesOf s.frame.report (memOf s.frame) = done ++ s.todo ∧ s.thiz = done.foldl Store.run before.thiz

theorem fieldStored {β : Type} {get : PrivInfo → β} {good : β → Prop} {stores : List Store}
    (each : ∀ st ∈ stores, ∀ thiz, get (st.run thiz) = get thiz ∨ good (get (st.run thiz))) (thiz : PrivInfo) :
    get (stores.foldl Store.run thiz) = get thiz ∨ good (get (stores.foldl Store.run thiz)) := by
  induction stores generalizing thiz with
  | nil => exact Or.inl rfl
  | cons st rest ih =>
    rcases ih (fun other member => each other (List.mem_cons_of_mem _ member)) (st.run thiz) with same | now
    · rw [List.foldl_cons, same]
      exact each st List.mem_cons_self thiz
    · exact Or.inr now

theorem completedBegun (s : State) : s.completed ≤ s.begun ∧ s.begun ≤ s.completed + 1 := by
  unfold State.completed
  split <;> omega

theorem fieldNow {s : State} (stored : Stored first seen s) {β : Type} {get : PrivInfo → β} (good : β → Prop)
    (each : ∀ st ∈ storesOf s.frame.report (memOf s.frame), ∀ thiz,
      get (st.run thiz) = get thiz ∨ good (get (st.run thiz))) :
    (∃ m, passes first seen s.completed = .ok m ∧ get s.thiz = get m.thiz) ∨
      (s.begun = s.completed + 1 ∧ good (get s.thiz)) := by
  unfold State.completed
  split
  · rename_i ended
    exact Or.inl ⟨s.frame,stored.frame,congrArg get (stored.whole ended)⟩
  · rename_i under
    obtain ⟨k,before,done,begun,ran,split,now⟩ := stored.part under
    have early : ∀ st ∈ done, ∀ thiz, get (st.run thiz) = get thiz ∨ good (get (st.run thiz)) :=
      fun st member => each st (split ▸ List.mem_append_left _ member)
    rw [now, begun]
    rcases fieldStored early before.thiz with same | new
    · exact Or.inl ⟨before,ran,same⟩
    · exact Or.inr ⟨rfl,new⟩

theorem storeCases {r : Report} {mem : MemStat} {st : Store} (member : st ∈ storesOf r mem) :
    (∃ rate ∈ r.rates, st = .uplink rate.1 ∨ st = .downlink rate.2) ∨ st = .cpuIdle (r.cpuIdle,r.cpuSum) ∨
      st = .memTotal mem.memtotal ∨ st = .memFree mem.memfree := by
  simpa only [storesOf, List.mem_append, List.mem_flatMap, List.mem_cons, List.not_mem_nil, or_false] using member

theorem Published.wider {β : Type} {get : PrivInfo → β} {low high high' : Nat} {v : β}
    (h : Published first seen get low high v) (more : high ≤ high') : Published first seen get low high' v := by
  obtain ⟨k,m,above,below,ran,same⟩ := h
  exact ⟨k,m,above,Nat.le_trans below more,ran,same⟩

theorem PublishedRate.wider {get : PrivInfo → Rate} {pick : Rate × Rate → Rate} {low high high' : Nat} {v : Rate}
    (h : PublishedRate first seen get pick low high v) (more : high ≤ high') :
    PublishedRate first seen get pick low high' v := by
  rcases h with kept | ⟨k,m,above,below,ran,inside⟩
  · exact Or.inl kept
  · exact Or.inr ⟨k,m,above,Nat.le_trans below more,ran,inside⟩

theorem PublishedMemory.wider {low high high' : Nat} {total free : Int}
    (h : PublishedMemory first seen low high total free) (more : high ≤ high') :
    PublishedMemory first seen low high' total free := by
  obtain ⟨i,j,m,n,lowI,highI,lowJ,highJ,order,rest⟩ := h
  exact ⟨i,j,m,n,lowI,Nat.le_trans highI more,lowJ,Nat.le_trans highJ more,order,rest⟩

theorem publishedNow {s : State} (stored : Stored first seen s) {β : Type} (get : PrivInfo → β) {v : β}
    (each : ∀ st ∈ storesOf s.frame.report (memOf s.frame), ∀ thiz, get (st.run thiz) = get thiz ∨ get (st.run thiz) = v)
    (put : ∀ before : PrivInfo, get (before.publish s.frame.report (memOf s.frame)) = v) :
    ∃ k m, s.completed ≤ k ∧ k ≤ s.begun ∧ passes first seen k = .ok m ∧ get s.thiz = get m.thiz := by
  have between := completedBegun s
  rcases fieldNow stored (· = v) each with ⟨m,ran,same⟩ | ⟨under,new⟩
  · exact ⟨s.completed,m,Nat.le_refl _,between.1,ran,same⟩
  · obtain ⟨before,published⟩ := stored.published (by omega)
    refine ⟨s.begun,s.frame,between.1,Nat.le_refl _,stored.frame,?_⟩
    rw [published, put before]
    exact new

theorem rateKept {get : PrivInfo → Rate} {pick : Rate × Rate → Rate}
    (put : ∀ (before : PrivInfo) r mem, get (before.publish r mem) = (r.rates.getLast?.map pick).getD (get before))
    {low k : Nat} (late : low ≤ k) {m : Frame} (ran : passes first seen k = .ok m) :
    PublishedRate first seen get pick low k (get m.thiz) := by
  induction k generalizing m with
  | zero =>
    cases Nat.le_zero.mp late
    exact Or.inl ⟨m,ran,rfl⟩
  | succ k ih =>
    rcases Nat.lt_or_eq_of_le late with earlier | same
    · have whole := ran
      unfold passes at ran
      cases before : passes first seen k with
      | error stop =>
        rw [before] at ran
        cases ran
      | ok old =>
        rw [before] at ran
        rw [passPublishes ran, put]
        cases last : m.report.rates.getLast? with
        | none => exact (ih (Nat.le_of_lt_succ earlier) before).wider (Nat.le_succ k)
        | some rate =>
          have inside : pick rate ∈ m.report.rates.map pick := List.mem_map_of_mem (List.mem_of_getLast? last)
          exact Or.inr ⟨k + 1,m,earlier,Nat.le_refl _,whole,inside⟩
    · exact Or.inl ⟨m,same ▸ ran,rfl⟩

theorem rateNow {s : State} (stored : Stored first seen s) {get : PrivInfo → Rate} {pick : Rate × Rate → Rate}
    (put : ∀ (before : PrivInfo) r mem, get (before.publish r mem) = (r.rates.getLast?.map pick).getD (get before))
    (each : ∀ st ∈ storesOf s.frame.report (memOf s.frame), ∀ thiz,
      get (st.run thiz) = get thiz ∨ get (st.run thiz) ∈ s.frame.report.rates.map pick) {low : Nat}
    (early : low ≤ s.completed) : PublishedRate first seen get pick low s.begun (get s.thiz) := by
  rcases fieldNow stored (· ∈ s.frame.report.rates.map pick) each with ⟨m,ran,same⟩ | ⟨under,new⟩
  · rw [same]
    exact (rateKept put early ran).wider (completedBegun s).1
  · exact Or.inr ⟨s.begun,s.frame,by omega,Nat.le_refl _,stored.frame,new⟩

theorem totalNow {s : State} (stored : Stored first seen s) {low : Nat} (early : low ≤ s.completed) :
    Published first seen PrivInfo.memTotal low s.begun s.thiz.memTotal := by
  obtain ⟨k,m,above,below,ran,same⟩ := publishedNow stored PrivInfo.memTotal (v := (memOf s.frame).memtotal)
    (fun st member thiz => by
      rcases storeCases member with ⟨rate,_,rfl | rfl⟩ | rfl | rfl | rfl <;> simp [Store.run])
    (fun _ => rfl)
  exact ⟨k,m,Nat.le_trans early above,below,ran,same⟩

theorem cpuNow {s : State} (stored : Stored first seen s) {low : Nat} (early : low ≤ s.completed) :
    Published first seen PrivInfo.cpuIdle low s.begun s.thiz.cpuIdle := by
  obtain ⟨k,m,above,below,ran,same⟩ := publishedNow stored PrivInfo.cpuIdle
    (v := (s.frame.report.cpuIdle,s.frame.report.cpuSum))
    (fun st member thiz => by
      rcases storeCases member with ⟨rate,_,rfl | rfl⟩ | rfl | rfl | rfl <;> simp [Store.run])
    (fun _ => rfl)
  exact ⟨k,m,Nat.le_trans early above,below,ran,same⟩

theorem memoryNow {s : State} (stored : Stored first seen s) {low : Nat} (early : low ≤ s.completed) {total : Int}
    (read : Published first seen PrivInfo.memTotal low s.begun total) :
    PublishedMemory first seen low s.begun total s.thiz.memFree := by
  obtain ⟨j,n,aboveJ,belowJ,ranJ,free⟩ := publishedNow stored PrivInfo.memFree (v := (memOf s.frame).memfree)
    (fun st member thiz => by
      rcases storeCases member with ⟨rate,_,rfl | rfl⟩ | rfl | rfl | rfl <;> simp [Store.run])
    (fun _ => rfl)
  have above := Nat.le_trans early aboveJ
  obtain ⟨i,m,aboveI,belowI,ranI,same⟩ := read
  have between := completedBegun s
  exact ⟨i,j,m,n,aboveI,belowI,above,belowJ,by omega,ranI,ranJ,same,free⟩

theorem uplinkNow {s : State} (stored : Stored first seen s) {low : Nat} (early : low ≤ s.completed) :
    PublishedRate first seen PrivInfo.uplink Prod.fst low s.begun s.thiz.uplink := by
  refine rateNow stored (fun _ _ _ => rfl) ?_ early
  intro st member thiz
  rcases storeCases member with ⟨rate,inside,rfl | rfl⟩ | rfl | rfl | rfl
  · exact Or.inr (List.mem_map_of_mem inside)
  all_goals exact Or.inl rfl

theorem downlinkNow {s : State} (stored : Stored first seen s) {low : Nat} (early : low ≤ s.completed) :
    PublishedRate first seen PrivInfo.downlink Prod.snd low s.begun s.thiz.downlink := by
  refine rateNow stored (fun _ _ _ => rfl) ?_ early
  intro st member thiz
  rcases storeCases member with ⟨rate,inside,rfl | rfl⟩ | rfl | rfl | rfl
  · exact Or.inl rfl
  · exact Or.inr (List.mem_map_of_mem inside)
  all_goals exact Or.inl rfl

structure Asked (first : Frame) (seen : Nat → Seen) (s : State) (r : Request) : Prop where
  early : r.first ≤ s.completed
  total : 0 < r.pc.rank → Published first seen PrivInfo.memTotal r.first s.begun r.figures.memTotal
  uplink : 1 < r.pc.rank → PublishedRate first seen PrivInfo.uplink Prod.fst r.first s.begun r.figures.uplink
  downlink : 2 < r.pc.rank → PublishedRate first seen PrivInfo.downlink Prod.snd r.first s.begun r.figures.downlink
  memory : 3 < r.pc.rank → PublishedMemory first seen r.first s.begun r.figures.memTotal r.figures.memFree

structure Answered (first : Frame) (seen : Nat → Seen) (a : Answer) : Prop where
  ordered : a.first ≤ a.last
  memory : PublishedMemory first seen a.first a.last a.figures.memTotal a.figures.memFree
  uplink : PublishedRate first seen PrivInfo.uplink Prod.fst a.first a.last a.figures.uplink
  downlink : PublishedRate first seen PrivInfo.downlink Prod.snd a.first a.last a.figures.downlink
  cpu : Published first seen PrivInfo.cpuIdle a.first a.last a.figures.cpuIdle

structure Consistent (first : Frame) (seen : Nat → Seen) (s : State) : Prop where
  stored : Stored first seen s
  asked : ∀ r, s.request = some r → Asked first seen s r
  answered : ∀ a ∈ s.answers, Answered first seen a

theorem Asked.kept {s t : State} {r : Request} (asked : Asked first seen s r) (completed : s.completed ≤ t.completed)
    (begun : s.begun ≤ t.begun) : Asked first seen t r :=
  ⟨Nat.le_trans asked.early completed,fun due => (asked.total due).wider begun,
    fun due => (asked.uplink due).wider begun,fun due => (asked.downlink due).wider begun,
    fun due => (asked.memory due).wider begun⟩

theorem storedSample {s : State} (stored : Stored first seen s) (ended : s.todo = []) {next : Frame}
    (ran : LoadSystem.pass (seen (s.begun + 1)) s.frame = .ok next) :
    Stored first seen {s with frame := next, todo := storesOf next.report (memOf next), begun := s.begun + 1} := by
  refine ⟨?_,fun _ => ⟨s.frame.thiz,passPublishes ran⟩,?_,fun _ => ⟨s.begun,s.frame,[],rfl,stored.frame,rfl,?_⟩⟩
  · show passes first seen (s.begun + 1) = .ok next
    unfold passes
    rw [stored.frame]
    exact ran
  · intro none
    exact absurd none (by simp [storesOf])
  · exact stored.whole ended

theorem storedStore {s : State} (stored : Stored first seen s) {st : Store} {rest : List Store}
    (due : s.todo = st :: rest) : Stored first seen {s with thiz := st.run s.thiz, todo := rest} := by
  obtain ⟨k,before,done,begun,ran,split,now⟩ := stored.part (by rw [due]; exact List.cons_ne_nil st rest)
  have more : storesOf s.frame.report (memOf s.frame) = (done ++ [st]) ++ rest := by
    rw [split, due, List.append_assoc]
    rfl
  have stepped : st.run s.thiz = (done ++ [st]).foldl Store.run before.thiz := by
    rw [List.foldl_append, ← now]
    rfl
  refine ⟨stored.frame,stored.published,?_,fun _ => ⟨k,before,done ++ [st],begun,ran,more,stepped⟩⟩
  intro none
  have passed := stored.frame
  rw [begun] at passed
  unfold passes at passed
  rw [ran] at passed
  show st.run s.thiz = s.frame.thiz
  rw [passPublishes passed, ← storesPublish, more, show rest = [] from none, List.append_nil]
  exact stepped

theorem Stored.asking {s : State} (stored : Stored first seen s) (request : Option Request) (answers : List Answer) :
    Stored first seen {s with request := request, answers := answers} :=
  ⟨stored.frame,stored.published,stored.whole,stored.part⟩

theorem askedRead {s : State} (stored : Stored first seen s) {r : Request} (asked : Asked first seen s r) {pc : Getter}
    (next : r.pc.next = some pc) (answers : List Answer) :
    Asked first seen {s with request := some ⟨r.first,pc,r.pc.read s.thiz r.figures⟩, answers := answers}
      ⟨r.first,pc,r.pc.read s.thiz r.figures⟩ := by
  obtain ⟨low,now,figures⟩ := r
  have early := asked.early
  cases now with
  | memTotal =>
    cases Option.some.inj next
    refine ⟨early,fun _ => totalNow stored early,?_,?_,?_⟩ <;> intro due <;> simp [Getter.rank] at due
  | uplink =>
    cases Option.some.inj next
    refine ⟨early,fun _ => asked.total (by simp [Getter.rank]),fun _ => uplinkNow stored early,?_,?_⟩ <;> intro due <;>
      simp [Getter.rank] at due
  | downlink =>
    cases Option.some.inj next
    refine ⟨early,fun _ => asked.total (by simp [Getter.rank]),fun _ => asked.uplink (by simp [Getter.rank]),
      fun _ => downlinkNow stored early,?_⟩
    intro due
    simp [Getter.rank] at due
  | memFree =>
    cases Option.some.inj next
    have total := asked.total (by simp [Getter.rank])
    exact ⟨early,fun _ => total,fun _ => asked.uplink (by simp [Getter.rank]),fun _ => asked.downlink (by simp [Getter.rank]),
      fun _ => memoryNow stored early total⟩
  | cpu => cases next

theorem answeredRead {s : State} (stored : Stored first seen s) {r : Request} (asked : Asked first seen s r)
    (last : r.pc.next = none) : Answered first seen ⟨r.first,s.begun,r.pc.read s.thiz r.figures⟩ := by
  obtain ⟨low,now,figures⟩ := r
  cases now with
  | cpu =>
    exact ⟨Nat.le_trans asked.early (completedBegun s).1,asked.memory (by simp [Getter.rank]),asked.uplink (by simp [Getter.rank]),
      asked.downlink (by simp [Getter.rank]),cpuNow stored asked.early⟩
  | memTotal => cases last
  | uplink => cases last
  | downlink => cases last
  | memFree => cases last

theorem consistentStart {s : State} (started : (system first seen).start s) : Consistent first seen s := by
  obtain ⟨m,ran,rfl⟩ := started
  refine ⟨⟨ran,fun some_ => absurd rfl some_,fun _ => rfl,fun some_ => absurd rfl some_⟩,?_,?_⟩
  · intro r absent
    cases absent
  · intro a absent
    cases absent

theorem consistentRead {s t : State} (c : Consistent first seen s) (taken : step seen s .read = some t) :
    Consistent first seen t := by
  simp only [step] at taken
  split at taken
  · cases taken
  · rename_i r asking
    have asked := c.asked r asking
    split at taken
    · rename_i pc next
      cases Option.some.inj taken
      refine ⟨c.stored.asking _ _,?_,c.answered⟩
      intro q same
      cases Option.some.inj same
      exact askedRead c.stored asked next s.answers
    · rename_i last
      cases Option.some.inj taken
      refine ⟨c.stored.asking _ _,?_,?_⟩
      · intro q absent
        cases absent
      · intro a member
        rcases List.mem_append.mp member with earlier | new
        · exact c.answered a earlier
        · rw [List.mem_singleton.mp new]
          exact answeredRead c.stored asked last

theorem consistentStep {s t : State} {e : Event} (c : Consistent first seen s) (taken : step seen s e = some t) :
    Consistent first seen t := by
  cases e with
  | sample =>
    simp only [step] at taken
    split at taken
    · cases taken
    · rename_i ended
      split at taken
      · cases taken
      · rename_i next ran
        cases Option.some.inj taken
        refine ⟨storedSample c.stored ended ran,?_,c.answered⟩
        intro r asking
        refine (c.asked r asking).kept ?_ (Nat.le_succ _)
        simp [State.completed, ended, storesOf]
  | store =>
    simp only [step] at taken
    split at taken
    · cases taken
    · rename_i st rest due
      cases Option.some.inj taken
      refine ⟨storedStore c.stored due,?_,c.answered⟩
      intro r asking
      refine (c.asked r asking).kept ?_ (Nat.le_refl _)
      simp only [State.completed, due, List.cons_ne_nil, if_false]
      split <;> omega
  | ask before =>
    simp only [step] at taken
    split at taken
    · cases taken
    · cases Option.some.inj taken
      refine ⟨c.stored.asking _ _,?_,c.answered⟩
      intro r asking
      cases Option.some.inj asking
      refine ⟨Nat.le_refl _,?_,?_,?_,?_⟩ <;> intro due <;> simp [Getter.rank] at due
  | read => exact consistentRead c taken

theorem consistentReached {s : State} (reached : (system first seen).Reachable s) : Consistent first seen s :=
  (system first seen).reachableInvariant (fun _ started => consistentStart started)
    (fun _ _ _ c taken => consistentStep c taken) reached

theorem answeredSettled {a : Answer} (answered : Answered first seen a) (still : a.first = a.last) :
    ∃ m, passes first seen a.first = .ok m ∧ a.figures = figuresOf m.thiz := by
  have one {k : Nat} {m n : Frame} (above : a.first ≤ k) (below : k ≤ a.last) (ran : passes first seen k = .ok m)
      (base : passes first seen a.first = .ok n) : m = n := by
    cases (show k = a.first by omega)
    rw [base] at ran
    exact (Except.ok.inj ran).symm
  obtain ⟨i,j,m,n,lowI,highI,lowJ,highJ,_,ranI,ranJ,total,free⟩ := answered.memory
  cases (show i = a.first by omega)
  cases one lowJ highJ ranJ ranI
  have rate {get : PrivInfo → Rate} {pick : Rate × Rate → Rate} {v : Rate}
      (h : PublishedRate first seen get pick a.first a.last v) : v = get m.thiz := by
    rcases h with ⟨other,ran,same⟩ | ⟨k,_,above,below,_⟩
    · rw [same, one (Nat.le_refl _) answered.ordered ran ranI]
    · omega
  obtain ⟨k,other,above,below,ran,cpu⟩ := answered.cpu
  cases one above below ran ranI
  refine ⟨m,ranI,?_⟩
  obtain ⟨low,high,figures⟩ := a
  unfold figuresOf
  rw [← total, ← free, ← cpu, ← rate answered.uplink, ← rate answered.downlink]

/- However the two threads take turns, an answer mixes nothing but what the passes that it met published. -/
theorem answersPublished {s : State} (reached : (system first seen).Reachable s) :
    ∀ a ∈ s.answers, Answered first seen a ∧
      (a.first = a.last → ∃ m, passes first seen a.first = .ok m ∧ a.figures = figuresOf m.thiz) := by
  intro a member
  have answered := (consistentReached reached).answered a member
  exact ⟨answered,answeredSettled answered⟩

end Runs

section Woven
variable {first : Frame} {seen : Nat → Seen} {m next : Frame}

theorem storesRun (stores rest : List Store) (thiz : PrivInfo) (begun : Nat) (request : Option Request)
    (answers : List Answer) :
    (system first seen).run ⟨m,thiz,stores ++ rest,begun,request,answers⟩ (List.replicate stores.length .store) =
      some ⟨m,stores.foldl Store.run thiz,rest,begun,request,answers⟩ := by
  induction stores generalizing thiz with
  | nil => rfl
  | cons st stores ih => exact ih (st.run thiz)

theorem passRuns {k : Nat} (reached : (system first seen).Reachable ⟨m,m.thiz,[],k,none,[]⟩)
    (ran : LoadSystem.pass (seen (k + 1)) m = .ok next) :
    (system first seen).Reachable ⟨next,next.thiz,[],k + 1,none,[]⟩ := by
  obtain ⟨s,events,started,there⟩ := reached
  refine ⟨s,events ++ .sample :: List.replicate (storesOf next.report (memOf next)).length .store,started,?_⟩
  have sampled : (system first seen).step ⟨m,m.thiz,[],k,none,[]⟩ .sample =
      some ⟨next,m.thiz,storesOf next.report (memOf next) ++ [],k + 1,none,[]⟩ := by
    simp [system, step, ran]
  rw [System.runAppend, there, Option.bind_some, System.runTaken _ sampled, storesRun, storesPublish,
    ← passPublishes ran]

def woven (rates : Nat) (before : Figures) : List Event :=
  [.ask before,.read,.sample] ++ (List.replicate rates .store ++ ([.read,.read] ++
    (List.replicate 3 .store ++ [.read,.read])))

theorem wovenRuns {k : Nat} (reached : (system first seen).Reachable ⟨m,m.thiz,[],k,none,[]⟩)
    (ran : LoadSystem.pass (seen (k + 1)) m = .ok next) (before : Figures) :
    ∃ s, (system first seen).Reachable s ∧
      s.answers = [⟨k,k + 1,⟨m.thiz.memTotal,next.thiz.uplink,next.thiz.downlink,next.thiz.memFree,next.thiz.cpuIdle⟩⟩] := by
  obtain ⟨s,events,started,there⟩ := reached
  have published := passPublishes ran
  have stored := ratesStored next.report.rates m.thiz
  generalize split : next.report.rates.flatMap (fun rate => [Store.uplink rate.1,.downlink rate.2]) = rates at stored
  have sampled : (system first seen).run ⟨m,m.thiz,[],k,none,[]⟩ [.ask before,.read,.sample] =
      some ⟨next,m.thiz,rates ++ [.cpuIdle (next.report.cpuIdle,next.report.cpuSum),.memTotal (memOf next).memtotal,
        .memFree (memOf next).memfree],k + 1,some ⟨k,.uplink,{before with memTotal := m.thiz.memTotal}⟩,[]⟩ := by
    simp [System.run, system, step, ran, storesOf, split, Getter.next, Getter.read, State.completed]
  refine ⟨⟨next,next.thiz,[],k + 1,none,[⟨k,k + 1,⟨m.thiz.memTotal,next.thiz.uplink,next.thiz.downlink,
    next.thiz.memFree,next.thiz.cpuIdle⟩⟩]⟩,⟨s,events ++ woven rates.length before,started,?_⟩,rfl⟩
  rw [System.runAppend, there, Option.bind_some, woven, System.runAppend, sampled, Option.bind_some,
    System.runAppend, storesRun, Option.bind_some, stored, published]
  rfl

end Woven

theorem risingReached (k : Nat) : ∃ m, m.thiz = publishedAt (localsWith 0 0) risingAt idlePriv k ∧
    Tracked (localsWith 0 0) risingAt m k ∧
    (system (enteredWith (localsWith 0 0) idlePriv) (seenOf risingAt)).Reachable ⟨m,m.thiz,[],k,none,[]⟩ := by
  induction k with
  | zero =>
    obtain ⟨m,base,published,tracked⟩ := passesTracked (seenGives risingAt) (localsClosed 0 0) idlePriv 0
    exact ⟨m,published,tracked,_,[],⟨m,base,rfl⟩,rfl⟩
  | succ k ih =>
    obtain ⟨m,published,tracked,reached⟩ := ih
    obtain ⟨next,ran,published,tracked⟩ := passTracked (seenGives risingAt (k + 1)) published tracked
    exact ⟨next,published,tracked,passRuns reached ran⟩

theorem risingWoven (k : Nat) : ∃ s, (system (enteredWith (localsWith 0 0) idlePriv) (seenOf risingAt)).Reachable s ∧
    s.answers = [⟨k,k + 1,{figuresOf (publishedAt (localsWith 0 0) risingAt idlePriv (k + 1)) with
      memTotal := (publishedAt (localsWith 0 0) risingAt idlePriv k).memTotal}⟩] := by
  obtain ⟨m,published,tracked,reached⟩ := risingReached k
  obtain ⟨next,ran,after,_⟩ := passTracked (seenGives risingAt (k + 1)) published tracked
  obtain ⟨s,woven,answers⟩ := wovenRuns reached ran (figuresOf idlePriv)
  exact ⟨s,woven,by rw [answers, published, after]; rfl⟩

theorem overtakenAnswer : ∃ s, (system (enteredWith (localsWith 0 0) idlePriv) (seenOf risingAt)).Reachable s ∧
    s.answers = [⟨0,1,⟨0,.per 4096 1000000,.per 0 1000000,3900,(60,100)⟩⟩] ∧ ∀ a ∈ s.answers,
      Answered (enteredWith (localsWith 0 0) idlePriv) (seenOf risingAt) a ∧
        (a.first = a.last → ∃ m, passes (enteredWith (localsWith 0 0) idlePriv) (seenOf risingAt) a.first = .ok m ∧
          a.figures = figuresOf m.thiz) := by
  obtain ⟨s,reached,answers⟩ := risingWoven 0
  exact ⟨s,reached,answers,answersPublished reached⟩

def UsedAt (samples : Nat → Sample) (installed : Nat) (a : Answer) (j : Nat) : Prop :=
  a.first ≤ j ∧ j ≤ a.last ∧ a.memory.toNat = installed - (samples j).mem.free.value

structure Straddles (samples : Nat → Sample) (installed : Nat) (a : Answer) : Prop where
  early : a.first = 0
  memory : a.memory = 0 ∨ a.memory = BitVec.ofNat 64 installed ∨
    ∃ j, 1 ≤ j ∧ j ≤ a.last ∧ a.memory = -BitVec.ofNat 64 (samples j).mem.free.value

theorem memoryAt {samples : Nat → Sample} {seen : Nat → Seen} (gives : ∀ k, Gives (seen k) (samples k)) {l : Locals}
    (closed : Closed l) (thiz : PrivInfo) {k : Nat} {m : Frame} (ran : passes (enteredWith l thiz) seen k = .ok m) :
    (k = 0 ∧ m.thiz.memTotal = thiz.memTotal ∧ m.thiz.memFree = thiz.memFree) ∨
      (1 ≤ k ∧ m.thiz.memTotal = (samples k).mem.total.value ∧ m.thiz.memFree = (samples k).mem.free.value) := by
  obtain ⟨_,again,published,_⟩ := passesTracked gives closed thiz k
  rw [ran] at again
  cases Except.ok.inj again
  rw [published]
  cases k with
  | zero => exact Or.inl ⟨rfl,rfl,rfl⟩
  | succ k => exact Or.inr ⟨Nat.le_add_left 1 k,rfl,rfl⟩

theorem memoryUsed {total free : Nat} (part : free ≤ total) (bounded : total < 2 ^ 63) :
    (BitVec.ofInt 64 ((total : Int) - free)).toNat = total - free := by
  rw [← Int.ofNat_sub part, BitVec.toNat_ofInt]
  omega

theorem memoryOfOnePass {samples : Nat → Sample} {seen : Nat → Seen} (gives : ∀ k, Gives (seen k) (samples k))
    {l : Locals} (closed : Closed l) {thiz : PrivInfo} (cleared : thiz.memTotal = 0 ∧ thiz.memFree = 0) {installed : Nat}
    (total : ∀ k, 1 ≤ k → (samples k).mem.total.value = installed)
    (part : ∀ k, 1 ≤ k → (samples k).mem.free.value ≤ installed) {s : State}
    (reached : (system (enteredWith l thiz) seen).Reachable s) :
    ∀ a ∈ s.answers, (∃ j, 1 ≤ j ∧ UsedAt samples installed a j) ∨ Straddles samples installed a := by
  intro a member
  obtain ⟨i,j,m,n,lowI,highI,lowJ,highJ,order,ranI,ranJ,readTotal,readFree⟩ :=
    ((consistentReached reached).answered a member).memory
  have bounded : installed < 2 ^ 63 := total 1 (Nat.le_refl 1) ▸ (samples 1).mem.total.bounded
  obtain ⟨clearedTotal,clearedFree⟩ := cleared
  have memory : a.memory = BitVec.ofInt 64 (m.thiz.memTotal - n.thiz.memFree) := by
    rw [Answer.memory, readTotal, readFree]
  rcases memoryAt gives closed thiz ranI with ⟨firstI,totalI,_⟩ | ⟨laterI,totalI,_⟩
  · refine Or.inr ⟨by omega,?_⟩
    rcases memoryAt gives closed thiz ranJ with ⟨_,_,freeJ⟩ | ⟨laterJ,_,freeJ⟩
    · refine Or.inl ?_
      rw [memory, totalI, freeJ, clearedTotal, clearedFree]
      rfl
    · refine Or.inr (Or.inr ⟨j,laterJ,highJ,?_⟩)
      rw [memory, totalI, freeJ, clearedTotal, Int.zero_sub, BitVec.ofInt_neg]
      rfl
  · rw [total i laterI] at totalI
    rcases memoryAt gives closed thiz ranJ with ⟨firstJ,_,freeJ⟩ | ⟨laterJ,_,freeJ⟩
    · refine Or.inr ⟨by omega,Or.inr (Or.inl ?_)⟩
      rw [memory, totalI, freeJ, clearedFree, Int.sub_zero]
      rfl
    · refine Or.inl ⟨j,laterJ,lowJ,highJ,?_⟩
      rw [memory, totalI, freeJ, memoryUsed (part j laterJ) bounded]

/- 12100 in use: the total of one pass, the free memory of the next. -/
theorem risingMemory : ∃ s, (system (enteredWith (localsWith 0 0) idlePriv) (seenOf risingAt)).Reachable s ∧
    s.answers.map (fun a => (a.first,a.last,a.memory)) = [(1,2,12100)] ∧
    ∀ a ∈ s.answers, (∃ j, 1 ≤ j ∧ UsedAt risingAt 16000 a j) ∨ Straddles risingAt 16000 a := by
  obtain ⟨s,reached,answers⟩ := risingWoven 1
  refine ⟨s,reached,by rw [answers]; rfl,memoryOfOnePass (seenGives risingAt) (localsClosed 0 0) ⟨rfl,rfl⟩
    (fun _ _ => rfl) ?_ reached⟩
  intro k _
  show (freeRow (k != 0)).value ≤ 16000
  cases k != 0 <;> decide

end VmpRl.NodeStateReads
