import VmpRl.NmonNet
import VmpRl.NmonStat
import VmpRl.NmonMem

/-! `system_net_proc` of `load_system.c`: two buffers that `data_switcher` exchanges before
each pass. Pass k leaves the sample k in the one that `p` points at and finds the sample
k-1 in the other. -/
namespace VmpRl.LoadSystem
open Octets Text CRuntime Nmon ProcFiles NmonNet NmonLines NmonStat NmonMem

/- `time` is the clock in microseconds, which the source keeps as a double of seconds. -/
structure SystemData where
  cpuTotal : CpuStat
  cpuN : Nat → CpuStat
  mem : MemStat
  ifnets : Nat → NetStat
  time : Int

/- `IFDELTA(..) / 1024.0`: the literal 0 of IFDELTA, or the numbers that `bytes / elapsed` is computed from. -/
inductive Rate where
  | zero
  | per (bytes : Nat) (elapsed : Int)
  deriving DecidableEq, Repr

def Rate.bytes : Rate → Nat
  | .zero => 0
  | .per bytes _ => bytes

def ifDelta (q p : Nat) (elapsed : Int) : Rate := if p < q then .zero else .per (p - q) elapsed

structure PrivInfo where
  interval : Int
  uplink : Rate
  downlink : Rate
  cpuIdle : Int × Int
  memTotal : Int
  memFree : Int
  deriving DecidableEq, Repr

structure Report where
  rates : List (Rate × Rate)
  cpuUser : Int
  cpuSys : Int
  cpuWait : Int
  cpuIdle : Int
  cpuSteal : Int
  deriving DecidableEq, Repr

/- The sum of ints, taken not to overflow. -/
def Report.cpuSum (r : Report) : Int := r.cpuIdle + r.cpuUser + r.cpuSys + r.cpuWait + r.cpuSteal

structure Frame where
  sysData : Bool → SystemData
  p : Bool
  q : Bool
  proc : ProcFile → NmonProc
  statics : Statics
  which : Bool
  thiz : PrivInfo
  report : Report

structure Seen where
  files : Files
  clock : Int

def systemInterfaceStat (p : SystemData) (ifnets : List NetStat) : SystemData :=
  {p with ifnets := fun i => ifnets.getD i (p.ifnets i)}

def copyCells {α : Type} (count : Nat) (source target : Nat → α) : Nat → α :=
  fun i => if i < count then source i else target i

def dataSwitcher (m : Frame) : Frame :=
  let proc := fun f => {m.proc f with readThisInterval := 0}
  if m.which then {m with p := false, q := true, which := false, proc := proc}
  else {m with q := false, p := true, which := true, proc := proc}

def rawTotal (p q : SystemData) (member : CpuStat → Int) : Int := member p.cpuTotal - member q.cpuTotal

def ratesOf (p q : SystemData) (networks : Nat) : List (Rate × Rate) :=
  (List.range networks).map (fun i =>
    (ifDelta (q.ifnets i).ifIbytes (p.ifnets i).ifIbytes (p.time - q.time),
     ifDelta (q.ifnets i).ifObytes (p.ifnets i).ifObytes (p.time - q.time)))

def reportOf (p q : SystemData) (networks : Nat) : Report where
  rates := ratesOf p q networks
  cpuUser := toInt (rawTotal p q CpuStat.user + rawTotal p q CpuStat.nice)
  cpuSys := toInt (rawTotal p q CpuStat.sys + rawTotal p q CpuStat.irq + rawTotal p q CpuStat.softirq)
  cpuWait := toInt (rawTotal p q CpuStat.wait)
  cpuIdle := toInt (rawTotal p q CpuStat.idle)
  cpuSteal := toInt (rawTotal p q CpuStat.steal)

def PrivInfo.publish (thiz : PrivInfo) (r : Report) (mem : MemStat) : PrivInfo :=
  {thiz with uplink := (r.rates.getLast?.map Prod.fst).getD thiz.uplink,
             downlink := (r.rates.getLast?.map Prod.snd).getD thiz.downlink,
             cpuIdle := (r.cpuIdle,r.cpuSum), memTotal := mem.memtotal, memFree := mem.memfree}

def enter (seen : Seen) (m : Frame) : Run Frame := do
  let p := {m.sysData false with time := seen.clock}
  let q := {m.sysData true with time := p.time}
  let (g,p,networks) ← vmpProcNet seen.files m.statics false systemInterfaceStat p
  let q := {q with ifnets := copyCells networks p.ifnets q.ifnets}
  let proc := procInit m.proc
  let (g,stat,cpus) ← getCpuCnt seen.files g (proc .stat)
  let (g,cpuTotal,cpuN) ← procCpu g stat cpus p.cpuTotal p.cpuN
  let p := {p with cpuTotal := cpuTotal, cpuN := cpuN}
  let q := {q with cpuTotal := p.cpuTotal, cpuN := copyCells cpus p.cpuN q.cpuN}
  let (g,meminfo,mem) ← vmpProcMem seen.files g (proc .meminfo)
  .ok {m with sysData := fun i => if i then {q with mem := mem} else {p with mem := mem}, p := false,
              q := true, proc := Function.update (Function.update proc .stat stat) .meminfo meminfo,
              statics := g, thiz := {m.thiz with interval := 1}}

/- One pass of the loop; `p` and `q` are never the same buffer. -/
def pass (seen : Seen) (m : Frame) : Run Frame := do
  let m := dataSwitcher m
  let q := m.sysData m.q
  let p := {m.sysData m.p with time := seen.clock}
  let (g,p,networks) ← vmpProcNet seen.files m.statics false systemInterfaceStat p
  let (g,stat,cpus) ← getCpuCnt seen.files g (m.proc .stat)
  let (g,cpuTotal,cpuN) ← procCpu g stat cpus p.cpuTotal p.cpuN
  let p := {p with cpuTotal := cpuTotal, cpuN := cpuN}
  let report := reportOf p q networks
  let (g,meminfo,mem) ← vmpProcMem seen.files g (m.proc .meminfo)
  .ok {m with sysData := Function.update m.sysData m.p {p with mem := mem},
              proc := Function.update (Function.update m.proc .stat stat) .meminfo meminfo,
              statics := g, thiz := m.thiz.publish report mem, report := report}

def passes (first : Frame) (seen : Nat → Seen) : Nat → Run Frame
  | 0 => enter (seen 0) first
  | k+1 => do
    let m ← passes first seen k
    pass (seen (k + 1)) m

/- The first call in the process: arbitrary buffers, entries of `proc[]` that are zero apart
from their names. -/
def entered (sysData : Bool → SystemData) (filenames : ProcFile → String) (thiz : PrivInfo) : Frame where
  sysData := sysData
  p := false
  q := true
  proc := fun f => ⟨none,filenames f,0,0,[],[],0⟩
  statics := Statics.initial
  which := true
  thiz := thiz
  report := ⟨[],0,0,0,0,0⟩

structure Sample where
  net : NetDev
  stat : StatFile
  mem : MemFile
  clock : Int

structure Gives (seen : Seen) (s : Sample) : Prop where
  opens : ∀ name, seen.files.opens name = true
  net : seen.files.contents "/proc/net/dev" = s.net.text
  stat : seen.files.contents "/proc/stat" = s.stat.text
  mem : seen.files.contents "/proc/meminfo" = s.mem.text
  clock : seen.clock = s.clock

structure Holds (d : SystemData) (s : Sample) : Prop where
  time : d.time = s.clock
  interfaces : ∀ i row, s.net.interfaces[i]? = some row → d.ifnets i = netStat row
  total : TotalHolds d.cpuTotal s.stat.toStatCounts
  cpus : ∀ i row, s.stat.cpus[i]? = some row → CpuHolds (d.cpuN i) row

def ratesBetween (s t : Sample) : List (Rate × Rate) :=
  (s.net.interfaces.zip t.net.interfaces).map (fun (old,new) =>
    (ifDelta (old.counters.nth 0) (new.counters.nth 0) (t.clock - s.clock),
     ifDelta (old.counters.nth 8) (new.counters.nth 8) (t.clock - s.clock)))

def between (s t : Sample) : Report where
  rates := ratesBetween s t
  cpuUser := toInt ((t.stat.total.nth 0 - s.stat.total.nth 0 : Int) + (t.stat.total.nth 1 - s.stat.total.nth 1))
  cpuSys := toInt ((t.stat.total.nth 2 - s.stat.total.nth 2 : Int) +
    (t.stat.total.nth 5 - s.stat.total.nth 5) + (t.stat.total.nth 6 - s.stat.total.nth 6))
  cpuWait := toInt (t.stat.total.nth 4 - s.stat.total.nth 4)
  cpuIdle := toInt (t.stat.total.nth 3 - s.stat.total.nth 3)
  cpuSteal := toInt (t.stat.total.nth 7 - s.stat.total.nth 7)

def SameMachine (s t : Sample) : Prop :=
  t.net.interfaces.map Interface.name = s.net.interfaces.map Interface.name ∧
  t.stat.cpus.length = s.stat.cpus.length

structure Published (thiz : PrivInfo) (r : Report) (s : Sample) : Prop where
  rates : ∀ up down, r.rates.getLast? = some (up,down) → thiz.uplink = up ∧ thiz.downlink = down
  cpuIdle : thiz.cpuIdle = (r.cpuIdle,r.cpuSum)
  memTotal : thiz.memTotal = s.mem.total.value
  memFree : thiz.memFree = s.mem.free.value

structure Ready (m : Frame) (s : Sample) : Prop where
  last : Holds (m.sysData m.which) s
  stat : Entry .stat (m.proc .stat)
  meminfo : Entry .meminfo (m.proc .meminfo)
  net : m.statics.netFp ≠ .null
  tuned : Tuned m.statics s.stat.cpus.length

theorem dataSwitched (m : Frame) : dataSwitcher m =
    {m with p := !m.which, q := m.which, which := !m.which,
            proc := fun f => {m.proc f with readThisInterval := 0}} := by
  unfold dataSwitcher
  cases m.which with
  | true => rfl
  | false => rfl

theorem tunedOther {g : Statics} {cpus : Nat} (tuned : Tuned g cpus) (netFp : NetFp) (done : Int) :
    Tuned {g with netFp := netFp, procCpuDone := done} cpus := by
  refine ⟨tuned.width,?_⟩
  rcases tuned.placed with changed | zero | ⟨intr,ctxt,procs,running,blocked⟩
  · exact Or.inl changed
  · exact Or.inr (Or.inl zero)
  · exact Or.inr (Or.inr ⟨intr,ctxt,procs,running,blocked⟩)

structure Round (seen : Seen) (s : Sample) (g : Statics) (stat meminfo : NmonProc) (p : SystemData) where
  opened : Statics
  counted : Statics
  next : Statics
  statRead : NmonProc
  memRead : NmonProc
  cpuTotal : CpuStat
  cpuN : Nat → CpuStat
  mem : MemStat
  net : vmpProcNet seen.files g false systemInterfaceStat p =
    .ok (opened,systemInterfaceStat p (s.net.interfaces.map netStat),s.net.interfaces.length)
  count : getCpuCnt seen.files opened stat = .ok (counted,statRead,s.stat.cpus.length)
  cpu : procCpu counted statRead s.stat.cpus.length
    (systemInterfaceStat p (s.net.interfaces.map netStat)).cpuTotal
    (systemInterfaceStat p (s.net.interfaces.map netStat)).cpuN = .ok (next,cpuTotal,cpuN)
  memory : vmpProcMem seen.files next meminfo = .ok (next,memRead,mem)
  usable : next.netFp ≠ .null
  tuned : Tuned next s.stat.cpus.length
  statKept : Entry .stat statRead
  memKept : Entry .meminfo memRead
  total : TotalHolds cpuTotal s.stat.toStatCounts
  cpus : ∀ i row, s.stat.cpus[i]? = some row → CpuHolds (cpuN i) row
  memTotal : mem.memtotal = s.mem.total.value
  memFree : mem.memfree = s.mem.free.value

theorem roundRead {seen : Seen} {s : Sample} (gives : Gives seen s) {g : Statics}
    (usable : g.netFp ≠ .null) (tuned : Tuned g s.stat.cpus.length) {stat meminfo : NmonProc}
    (statEntry : Entry .stat stat) (memEntry : Entry .meminfo meminfo)
    (statDue : stat.readThisInterval = 0) (memDue : meminfo.readThisInterval = 0) (p : SystemData) :
    Nonempty (Round seen s g stat meminfo p) := by
  have net := vmpProcNetRead gives.opens gives.net usable systemInterfaceStat p
  obtain ⟨statRead,read,statKept,_,shows,_⟩ := procReadDue gives.opens (by decide) statEntry statDue
    s.stat.lines s.stat.rest gives.stat s.stat.small (cleanStat s.stat) (statFew s.stat) {g with netFp := .opened}
  rw [if_pos rfl] at read
  have count := getCpuCntRead read shows
  obtain ⟨next,cpuTotal,cpuN,cpu,again,netKept,total,cpus⟩ := procCpuRead shows rfl
    (tunedOther tuned .opened 0) p.cpuTotal p.cpuN
  have still : next.netFp ≠ .null := by
    rw [netKept]
    simp
  obtain ⟨memRead,mem,memory,memKept,_,memTotal,memFree⟩ := vmpProcMemRead gives.opens memEntry memDue
    gives.mem next
  exact ⟨⟨_,_,next,statRead,memRead,cpuTotal,cpuN,mem,net,count,cpu,memory,still,again,statKept,memKept,total,
    cpus,memTotal,memFree⟩⟩

theorem interfacesRead (p : SystemData) {s : Sample} {i : Nat} {row : Interface}
    (there : s.net.interfaces[i]? = some row) :
    (systemInterfaceStat p (s.net.interfaces.map netStat)).ifnets i = netStat row := by
  show (s.net.interfaces.map netStat).getD i (p.ifnets i) = netStat row
  rw [List.getD_eq_getElem?_getD, List.getElem?_map, there]
  rfl

theorem ifDeltaBytes (q p : Nat) (elapsed : Int) : (ifDelta q p elapsed).bytes = p - q := by
  unfold ifDelta
  split
  · show 0 = p - q
    omega
  · rfl

theorem ratesRead {p q : SystemData} {s t : Sample} (new : Holds p t) (old : Holds q s)
    (same : t.net.interfaces.length = s.net.interfaces.length) :
    ratesOf p q t.net.interfaces.length = ratesBetween s t := by
  unfold ratesOf ratesBetween
  apply List.ext_getElem
  · simp [same]
  · intro i inside _
    have newInside : i < t.net.interfaces.length := by simpa using inside
    have oldInside : i < s.net.interfaces.length := same ▸ newInside
    have newRow := new.interfaces i _ (List.getElem?_eq_getElem newInside)
    have oldRow := old.interfaces i _ (List.getElem?_eq_getElem oldInside)
    simp [newRow, oldRow, netStat, new.time, old.time]

theorem reportBetween {p q : SystemData} {s t : Sample} (new : Holds p t) (old : Holds q s)
    (same : t.net.interfaces.length = s.net.interfaces.length) :
    reportOf p q t.net.interfaces.length = between s t := by
  have now := new.total
  have past := old.total
  simp only [reportOf, between, ratesRead new old same, rawTotal, now.user, now.nice, now.sys, now.irq,
    now.softirq, now.wait, now.idle, now.steal, past.user, past.nice, past.sys, past.irq, past.softirq,
    past.wait, past.idle, past.steal]

theorem entryDue {file : ProcFile} {info : NmonProc} (entry : Entry file info) :
    Entry file {info with readThisInterval := 0} := ⟨entry.named,entry.opened,entry.sized⟩

theorem enterReady {seen : Seen} {s : Sample} (gives : Gives seen s) (sysData : Bool → SystemData)
    (filenames : ProcFile → String) (thiz : PrivInfo) :
    ∃ m, enter seen (entered sysData filenames thiz) = .ok m ∧ Ready m s := by
  have named (f : ProcFile) : Entry f (procInit (entered sysData filenames thiz).proc f) :=
    ⟨rfl,Or.inl rfl,Or.inl rfl⟩
  obtain ⟨r⟩ := roundRead gives (by decide) (tunedInitial s.stat.cpus.length) (named .stat) (named .meminfo)
    rfl rfl {sysData false with time := seen.clock}
  have start : (entered sysData filenames thiz).statics = Statics.initial := rfl
  have data : (entered sysData filenames thiz).sysData = sysData := rfl
  unfold enter
  simp only [data, start, r.net, r.count, r.cpu, r.memory, bind, Except.bind]
  refine ⟨_,rfl,⟨gives.clock,?_,r.total,?_⟩,r.statKept,r.memKept,r.usable,r.tuned⟩
  · intro i row there
    have inside : i < s.net.interfaces.length := (List.getElem?_eq_some_iff.mp there).1
    show copyCells s.net.interfaces.length _ _ i = netStat row
    rw [copyCells, if_pos inside]
    exact interfacesRead _ there
  · intro i row there
    have inside : i < s.stat.cpus.length := (List.getElem?_eq_some_iff.mp there).1
    show CpuHolds (copyCells s.stat.cpus.length r.cpuN _ i) row
    rw [copyCells, if_pos inside]
    exact r.cpus i row there

theorem publishRead (thiz : PrivInfo) (r : Report) {mem : MemStat} {s : Sample}
    (total : mem.memtotal = s.mem.total.value) (free : mem.memfree = s.mem.free.value) :
    Published (thiz.publish r mem) r s := by
  refine ⟨?_,rfl,total,free⟩
  intro up down last
  unfold PrivInfo.publish
  simp only [last]
  exact ⟨rfl,rfl⟩

theorem passReady {seen : Seen} {m : Frame} {s t : Sample} (ready : Ready m s) (gives : Gives seen t)
    (same : SameMachine s t) :
    ∃ next, pass seen m = .ok next ∧ Ready next t ∧ Holds (next.sysData next.p) t ∧
      Holds (next.sysData next.q) s ∧ next.report = between s t ∧
      Published next.thiz (between s t) t := by
  have tuned : Tuned m.statics t.stat.cpus.length := by
    rw [same.2]
    exact ready.tuned
  have length : t.net.interfaces.length = s.net.interfaces.length := by
    have names := congrArg List.length same.1
    simpa using names
  obtain ⟨r⟩ := roundRead gives ready.net tuned (entryDue ready.stat) (entryDue ready.meminfo) rfl rfl
    {m.sysData (!m.which) with time := seen.clock}
  have old := ready.last
  have new : Holds {systemInterfaceStat {m.sysData (!m.which) with time := seen.clock}
      (t.net.interfaces.map netStat) with cpuTotal := r.cpuTotal, cpuN := r.cpuN} t :=
    ⟨gives.clock,fun i row there => interfacesRead _ there,r.total,r.cpus⟩
  have report := reportBetween new old length
  have apart : m.which ≠ !m.which := by simp
  unfold pass
  simp only [dataSwitched, r.net, r.count, r.cpu, r.memory, bind, Except.bind, report]
  refine ⟨_,rfl,⟨?_,r.statKept,r.memKept,r.usable,r.tuned⟩,?_,?_,rfl,publishRead _ _ r.memTotal r.memFree⟩
  · simp only [Function.update_self]
    exact ⟨new.time,new.interfaces,new.total,new.cpus⟩
  · simp only [Function.update_self]
    exact ⟨new.time,new.interfaces,new.total,new.cpus⟩
  · simp only [Function.update_of_ne apart]
    exact old

theorem sameNext {samples : Nat → Sample} (same : ∀ k, SameMachine (samples 0) (samples k)) (k : Nat) :
    SameMachine (samples k) (samples (k + 1)) :=
  ⟨(same (k + 1)).1.trans (same k).1.symm,(same (k + 1)).2.trans (same k).2.symm⟩

theorem passesReady {samples : Nat → Sample} (same : ∀ k, SameMachine (samples 0) (samples k))
    {seen : Nat → Seen} (gives : ∀ k, Gives (seen k) (samples k)) (sysData : Bool → SystemData)
    (filenames : ProcFile → String) (thiz : PrivInfo) (k : Nat) :
    ∃ m, passes (entered sysData filenames thiz) seen k = .ok m ∧ Ready m (samples k) := by
  induction k with
  | zero => exact enterReady (gives 0) sysData filenames thiz
  | succ k ih =>
    obtain ⟨m,ran,ready⟩ := ih
    obtain ⟨after,passed,kept,_⟩ := passReady ready (gives (k + 1)) (sameNext same k)
    refine ⟨after,?_,kept⟩
    unfold passes
    rw [ran]
    exact passed

/- Whatever the buffers held before the call, pass k+1 of the loop leaves the sample k+1 in
`p` and has the sample k in `q`, and it computes what these two samples say. -/
theorem consecutiveSamples (samples : Nat → Sample) (same : ∀ k, SameMachine (samples 0) (samples k))
    (seen : Nat → Seen) (gives : ∀ k, Gives (seen k) (samples k)) (sysData : Bool → SystemData)
    (filenames : ProcFile → String) (thiz : PrivInfo) (k : Nat) :
    ∃ m, passes (entered sysData filenames thiz) seen (k + 1) = .ok m ∧
      Holds (m.sysData m.p) (samples (k + 1)) ∧ Holds (m.sysData m.q) (samples k) ∧
      m.report = between (samples k) (samples (k + 1)) ∧
      Published m.thiz (between (samples k) (samples (k + 1))) (samples (k + 1)) := by
  obtain ⟨m,ran,ready⟩ := passesReady same gives sysData filenames thiz k
  obtain ⟨after,passed,_,new,old,report,published⟩ := passReady ready (gives (k + 1)) (sameNext same k)
  refine ⟨after,?_,new,old,report,published⟩
  unfold passes
  rw [ran]
  exact passed

def oneCpu (later : Bool) : CpuTimes where
  cells := [(0,if later then 140 else 100),(1,7),(1,30),(1,if later then 960 else 900),(1,5),(1,0),(1,2),
    (1,0),(1,0),(1,0)]
  counted := rfl
  spaced := by unfold Spaced; cases later <;> decide
  bounded := by cases later <;> decide

def oneInterface (later : Bool) : Interface where
  indent := 2
  name := ascii "eth0"
  counters :=
    { cells := [(0,if later then 5096 else 1000),(1,9),(1,0),(1,0),(1,0),(1,0),(1,0),(1,0),(1,700),(1,4),
        (1,0),(1,0),(1,0),(1,0),(1,0),(1,0)]
      counted := rfl
      spaced := by unfold Spaced; cases later <;> decide
      bounded := by cases later <;> decide }
  named := by decide
  nameShort := by decide
  namePlain := by decide +kernel
  short := by cases later <;> decide +kernel

def memRow (key : String) (value : Nat) (bounded : value < 2 ^ 63) : MemRow where
  key := ascii key
  gap := 7
  value := value
  unit := ascii " kB"
  spaced := by decide
  apart := stopsCons rfl (ascii "kB")
  bounded := bounded

def freeRow (later : Bool) : MemRow :=
  memRow "MemFree" (if later then 3900 else 4000) (by cases later <;> decide)

def oneMachine (later : Bool) (clock : Int) : Sample where
  net :=
    { first := ⟨ascii "Inter-|   Receive",by decide,by decide⟩
      second := ⟨ascii " face |bytes",by decide,by decide⟩
      interfaces := [oneInterface later]
      few := Nat.le_add_left 1 31 }
  stat :=
    { total := oneCpu later
      cpus := [oneCpu later]
      intr := 42
      irqs := ascii " 40 2"
      ctxt := 77
      btime := 1600000000
      processes := 12
      procsRunning := 1
      procsBlocked := 0
      rest := ascii "softirq 3 3\n"
      fewCpus := Nat.le_add_left 2 1534
      bounded := by decide
      irqsClean := by decide
      irqsApart := stopsCons rfl (ascii "40 2")
      small := by cases later <;> decide +kernel }
  mem :=
    { rows := [memRow "MemTotal" 16000 (by decide),freeRow later]
      total := memRow "MemTotal" 16000 (by decide)
      free := freeRow later
      clean := by cases later <;> decide +kernel
      totalKey := rfl
      freeKey := rfl
      oneTotal := by cases later <;> rfl
      oneFree := by cases later <;> rfl
      few := Nat.le_add_left 3 16381
      small := by cases later <;> decide +kernel }
  clock := clock

def filesOf (s : Sample) : Files where
  opens _ := true
  contents name :=
    if name = "/proc/net/dev" then s.net.text else if name = "/proc/stat" then s.stat.text else s.mem.text

def seenOf (samples : Nat → Sample) (k : Nat) : Seen := ⟨filesOf (samples k),(samples k).clock⟩

theorem seenGives (samples : Nat → Sample) (k : Nat) : Gives (seenOf samples k) (samples k) :=
  ⟨fun _ => rfl,rfl,rfl,rfl,rfl⟩

def risingAt (k : Nat) : Sample := oneMachine (k != 0) (1000000 * k)
def fallingAt (k : Nat) : Sample := oneMachine (k == 0) (1000000 * k)

def zeroCpu : CpuStat := ⟨0,0,0,0,0,0,0,0,0,0,0,0,0,0,0⟩

def zeroData : SystemData :=
  ⟨zeroCpu,fun _ => zeroCpu,⟨0,0,0,0,0,0,0,0,0,0,0,0,0,0,0⟩,fun _ => NetStat.zero,0⟩

def idlePriv : PrivInfo := ⟨1,.zero,.zero,(0,1),0,0⟩

def started : Frame := entered (fun _ => zeroData) ProcFile.filename idlePriv

theorem firstDelta :
    ∃ m, passes started (seenOf risingAt) 1 = .ok m ∧
      m.report.rates = [(.per 4096 1000000,.per 0 1000000)] ∧ m.report.cpuUser = 40 ∧ m.report.cpuIdle = 60 ∧
      m.thiz.memTotal = 16000 ∧ m.thiz.memFree = 3900 := by
  have same (k : Nat) : SameMachine (risingAt 0) (risingAt k) := ⟨rfl,rfl⟩
  obtain ⟨m,ran,_,_,report,published⟩ := consecutiveSamples risingAt same (seenOf risingAt)
    (seenGives risingAt) (fun _ => zeroData) ProcFile.filename idlePriv 0
  exact ⟨m,ran,by rw [report]; rfl,by rw [report]; rfl,by rw [report]; rfl,published.memTotal,published.memFree⟩

/- The counter falls from 5096 to 1000: the delta that is used is 0, not the difference. -/
theorem fallenCounter :
    ∃ m, passes started (seenOf fallingAt) 1 = .ok m ∧
      ((m.sysData m.p).ifnets 0).ifIbytes = 1000 ∧ ((m.sysData m.q).ifnets 0).ifIbytes = 5096 ∧
      m.report.rates = [(.zero,.per 0 1000000)] ∧
      ∀ rate ∈ m.report.rates, ((rate.1.bytes : Nat) : Int) ≠
        ((m.sysData m.p).ifnets 0).ifIbytes - ((m.sysData m.q).ifnets 0).ifIbytes := by
  obtain ⟨first,ran,ready⟩ := enterReady (seenGives fallingAt 0) (fun _ => zeroData) ProcFile.filename idlePriv
  obtain ⟨m,passed,_,new,old,report,_⟩ := passReady ready (seenGives fallingAt 1) ⟨rfl,rfl⟩
  have now : ((m.sysData m.p).ifnets 0).ifIbytes = 1000 := by
    rw [new.interfaces 0 _ rfl]
    rfl
  have before : ((m.sysData m.q).ifnets 0).ifIbytes = 5096 := by
    rw [old.interfaces 0 _ rfl]
    rfl
  have rates : m.report.rates = [(.zero,.per 0 1000000)] := by
    rw [report]
    rfl
  refine ⟨m,?_,now,before,rates,?_⟩
  · unfold passes passes
    unfold started
    rw [ran]
    exact passed
  · intro rate member
    rw [rates] at member
    rw [List.mem_singleton.mp member, now, before]
    decide

end VmpRl.LoadSystem
