import VmpRl.NmonStat

/-! `get_cpu_cnt` and `proc_cpu` over one content of `/proc/stat` after the other: the statics between
two calls fit every number of CPUs that may come next. -/
namespace VmpRl.NmonSnapshots
open Octets Text CRuntime Nmon ProcFiles NmonLines NmonStat

structure Reader where
  statics : Statics
  stat : NmonProc

structure CpuReport where
  cpus : Nat
  cpuTotal : CpuStat
  cpuN : Nat → CpuStat

def readCpus (files : Files) (cpuTotal : CpuStat) (cpuN : Nat → CpuStat) (r : Reader) :
    Run (Reader × CpuReport) := do
  let (g, stat, cpus) ← getCpuCnt files r.statics {r.stat with readThisInterval := 0}
  let (g, cpuTotal, cpuN) ← procCpu g stat cpus cpuTotal cpuN
  .ok (⟨g,stat⟩,⟨cpus,cpuTotal,cpuN⟩)

structure Snapshot where
  files : Files
  file : StatFile
  opens : ∀ name, files.opens name = true
  contents : files.contents ProcFile.stat.filename = file.text
  cpuTotal : CpuStat
  cpuN : Nat → CpuStat

def snapshot (s : Snapshot) : Reader → Run (Reader × CpuReport) := readCpus s.files s.cpuTotal s.cpuN

def snapshots : List Snapshot → Reader → Run Reader
  | [], r => .ok r
  | s :: later, r => do
    let (r, _) ← snapshot s r
    snapshots later r

/- The statics between two calls: the line numbers are those behind `old_cpus` CPUs. -/
structure Settled (g : Statics) : Prop where
  width : g.procCpuFirstTime = true ∨ g.stat10 = 10
  placed : g.intrLine = 0 ∨ Placed g g.oldCpus

theorem settledInitial : Settled Statics.initial := ⟨Or.inl rfl,Or.inl rfl⟩

theorem Settled.tuned {g : Statics} (settled : Settled g) (cpus : Nat) : Tuned g cpus := by
  refine ⟨settled.width,?_⟩
  by_cases same : g.oldCpus = cpus
  · have placed := settled.placed
    rw [same] at placed
    exact Or.inr placed
  · exact Or.inl same

theorem settledTuned {g : Statics} {cpus : Nat} (tuned : Tuned g cpus) (last : g.oldCpus = cpus) :
    Settled g := by
  refine ⟨tuned.width,?_⟩
  rw [last]
  rcases tuned.placed with changed | placed
  · exact absurd last changed
  · exact placed

theorem procCpuLast {g next : Statics} {info : NmonProc} {cpus : Nat} {cpuTotal total : CpuStat}
    {cpuN after : Nat → CpuStat} (due : g.procCpuDone ≠ 1)
    (ran : procCpu g info cpus cpuTotal cpuN = .ok (next,total,after)) : next.oldCpus = cpus := by
  unfold procCpu at ran
  rw [if_neg due] at ran
  simp only [bind, Except.bind] at ran
  iterate 8
    split at ran
    · cases ran
  cases ran
  rfl

structure Current (r : Reader) : Prop where
  settled : Settled r.statics
  entry : Entry .stat r.stat

structure Reports (report : CpuReport) (file : StatFile) : Prop where
  cpus : report.cpus = file.cpus.length
  total : TotalHolds report.cpuTotal file.toStatCounts
  rows : ∀ i row, file.cpus[i]? = some row → CpuHolds (report.cpuN i) row

theorem snapshotRead (s : Snapshot) {r : Reader} (current : Current r) :
    ∃ next report, snapshot s r = .ok (next,report) ∧ Current next ∧ Reports report s.file := by
  have entry : Entry .stat {r.stat with readThisInterval := 0} :=
    ⟨current.entry.named,current.entry.opened,current.entry.sized⟩
  obtain ⟨read,ran,kept,_,shows,_⟩ := procReadDue s.opens (by decide) entry rfl s.file.lines s.file.rest
    s.contents s.file.small (cleanStat s.file) (statFew s.file) r.statics
  rw [if_pos rfl] at ran
  have count := getCpuCntRead ran shows
  have due : Settled {r.statics with procCpuDone := 0} := by
    obtain ⟨width,placed⟩ := current.settled
    refine ⟨width,?_⟩
    rcases placed with zero | ⟨intr,ctxt,procs,running,blocked⟩
    · exact Or.inl zero
    · exact Or.inr ⟨intr,ctxt,procs,running,blocked⟩
  obtain ⟨next,total,after,cpu,tuned,_,totalHolds,rows⟩ := procCpuRead shows rfl
    (due.tuned s.file.cpus.length) s.cpuTotal s.cpuN
  have last := procCpuLast (show (0 : Int) ≠ 1 by decide) cpu
  unfold snapshot readCpus
  simp only [count, cpu, bind, Except.bind]
  exact ⟨_,_,rfl,⟨settledTuned tuned last,kept⟩,rfl,totalHolds,rows⟩

theorem snapshotsRead (earlier : List Snapshot) {r : Reader} (current : Current r) :
    ∃ next, snapshots earlier r = .ok next ∧ Current next := by
  induction earlier generalizing r with
  | nil => exact ⟨r,rfl,current⟩
  | cons s later ih =>
    obtain ⟨between,_,ran,kept,_⟩ := snapshotRead s current
    obtain ⟨next,rest,settled⟩ := ih kept
    refine ⟨next,?_,settled⟩
    simp only [snapshots, ran, bind, Except.bind]
    exact rest

/- After any contents, from the start of the process and a `/proc/stat` that is not open or open, a
call reports the content it finds. -/
theorem currentContent (earlier : List Snapshot) (s : Snapshot) {stat : NmonProc} (entry : Entry .stat stat) :
    ∃ r next report, snapshots earlier ⟨.initial,stat⟩ = .ok r ∧ snapshot s r = .ok (next,report) ∧
      Reports report s.file := by
  obtain ⟨r,ran,current⟩ := snapshotsRead earlier (r := ⟨.initial,stat⟩) ⟨settledInitial,entry⟩
  obtain ⟨next,report,read,_,reports⟩ := snapshotRead s current
  exact ⟨r,next,report,ran,read,reports⟩

def usedCpu (user : Nat) (bounded : user < 2 ^ 63) : CpuTimes where
  cells := [(0,user),(1,1),(1,2),(1,3),(1,4),(1,5),(1,6),(1,7),(1,8),(1,9)]
  counted := rfl
  spaced := by unfold Spaced; simp
  bounded := by simpa using bounded

def machine (cpus : List CpuTimes) (few : cpus.length < 1536)
    (small : (unlines (StatCounts.lines ⟨usedCpu 70 (by decide),cpus,42,ascii " 40",77,16,12,1,0⟩)).length <
      2 ^ 21) : StatFile where
  total := usedCpu 70 (by decide)
  cpus := cpus
  intr := 42
  irqs := ascii " 40"
  ctxt := 77
  btime := 16
  processes := 12
  procsRunning := 1
  procsBlocked := 0
  rest := []
  fewCpus := few
  bounded := by decide
  irqsClean := by decide
  irqsApart := stopsCons rfl (ascii "40")
  small := by rw [List.append_nil]; exact small

def zeroCpu : CpuStat := ⟨0,0,0,0,0,0,0,0,0,0,0,0,0,0,0⟩

def content (file : StatFile) : Snapshot :=
  ⟨⟨fun _ => true,fun _ => file.text⟩,file,fun _ => rfl,rfl,zeroCpu,fun _ => zeroCpu⟩

def oneCpu : StatFile := machine [usedCpu 5 (by decide)] (by decide) (by decide +kernel)
def elevenCpus : StatFile :=
  machine (List.replicate 10 (usedCpu 5 (by decide)) ++ [usedCpu 65 (by decide)]) (by decide) (by decide +kernel)

def closed : NmonProc := ⟨none,ProcFile.stat.filename,0,0,[],[],0⟩

theorem elevenAfterOne : ∃ r next report, snapshots [content oneCpu] ⟨.initial,closed⟩ = .ok r ∧
    snapshot (content elevenCpus) r = .ok (next,report) ∧ report.cpus = 11 ∧ (report.cpuN 10).user = 65 ∧
    report.cpuTotal.intr = 42 := by
  have entry : Entry .stat closed := ⟨rfl,Or.inl rfl,Or.inl rfl⟩
  obtain ⟨r,next,report,earlier,read,reports⟩ := currentContent [content oneCpu] (content elevenCpus) entry
  exact ⟨r,next,report,earlier,read,reports.cpus,(reports.rows 10 _ rfl).user,reports.total.intr⟩

end VmpRl.NmonSnapshots
