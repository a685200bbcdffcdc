import VmpRl.NmonSnapshots

/-! The CPUs of `/proc/stat` by the numbers they carry: off-line CPUs have no line, and `proc_cpu`
looks for the columns of the i-th line behind a label of the width of i. -/
namespace VmpRl.CpuLabels
open Octets Text CRuntime Nmon ProcFiles NmonLines NmonStat NmonSnapshots

/- A content whose CPU lines carry increasing numbers, behind the total and before a rest that does not
go on with a CPU. -/
structure GappedFile where
  total : CpuTimes
  cpus : List (Nat × CpuTimes)
  rest : Bytes
  increasing : (cpus.map Prod.fst).Pairwise (· < ·)
  fewCpus : cpus.length < 1536
  behind : ¬ ascii "cpu" <+: rest

def GappedFile.lines (file : GappedFile) : List Bytes :=
  cpuText [32] file.total :: file.cpus.map (fun cpu => cpuText (decimal cpu.1) cpu.2)

def GappedFile.text (file : GappedFile) : Bytes := unlines file.lines ++ file.rest

structure Ten (r : Reader) : Prop where
  width : r.statics.procCpuFirstTime = true ∨ r.statics.stat10 = 10
  entry : Entry .stat r.stat

theorem tenCurrent {r : Reader} (current : Current r) : Ten r := ⟨current.settled.width,current.entry⟩

def StoresColumns (files : Files) (file : GappedFile) (r : Reader) : Prop :=
  ∀ cpuTotal cpuN i n row, file.cpus[i]? = some (n,row) →
    ∃ next report, readCpus files cpuTotal cpuN r = .ok (next,report) ∧ CpuHolds (report.cpuN i) row

/- The label is at most one digit wider than the position, or the digits behind the guessed row say what
each of the ten columns says. -/
def Labelled (i n : Nat) (row : CpuTimes) : Prop :=
  (decimal n).length ≤ (decimal i).length + 1 ∨
    ∀ j < 10, (row.nth j : Int) = longLong (value ((decimal n).drop ((decimal i).length + 1)))

instance (i n : Nat) (row : CpuTimes) : Decidable (Labelled i n row) := by unfold Labelled; infer_instance

def found (i n : Nat) (row : CpuTimes) : List Int :=
  if (decimal n).length ≤ (decimal i).length + 1 then times row
  else longLong (value ((decimal n).drop ((decimal i).length + 1))) :: (times row).take 9

theorem foundTen (i n : Nat) (row : CpuTimes) : (found i n row).length = 10 := by
  unfold found
  split
  · exact timesLength row
  · rw [List.length_cons, List.length_take, timesLength]
    rfl

theorem scannedNine (row : CpuTimes) : sscanf longLong 9 (cells row.cells) = (times row).take 9 := by
  have scanned := sscanfColumns (fun n => (n : Int)) row (fun n small => longLongExact small)
    (show 9 ≤ 10 by decide) stopsNil
  rw [List.append_nil] at scanned
  rw [scanned, times, List.map_take]

theorem foundBehind {i n : Nat} (few : i < 1536) (le : i ≤ n) (row : CpuTimes) :
    cpuRow i ≤ (cpuText (decimal n) row).length ∧
      sscanf longLong 10 ((cpuText (decimal n) row).drop (cpuRow i)) = found i n row := by
  have place := cpuRowLength few
  have wide := decimalLengthMono le
  have shape : cpuText (decimal n) row = ascii "cpu" ++ (decimal n ++ 32 :: cells row.cells) := by
    simp [cpuText]
  have word : (ascii "cpu").length = 3 := rfl
  have line : (cpuText (decimal n) row).drop (cpuRow i) =
      (decimal n ++ 32 :: cells row.cells).drop ((decimal i).length + 1) := by
    have behind : cpuRow i = (ascii "cpu").length + ((decimal i).length + 1) := by
      rw [word]
      omega
    rw [shape, behind, ← List.drop_drop, List.drop_left]
  refine ⟨?_,?_⟩
  · rw [shape, List.length_append, List.length_append, List.length_cons, word]
    omega
  · rw [line, found]
    rcases Nat.lt_trichotomy (decimal n).length ((decimal i).length + 1) with narrow | same | wider
    · have behind : (decimal i).length + 1 = (decimal n ++ [32]).length := by simp; omega
      have split : decimal n ++ 32 :: cells row.cells = (decimal n ++ [32]) ++ cells row.cells := by simp
      rw [if_pos (by omega), split, behind, List.drop_left, sscanfTimes]
    · -- one digit more: the scan begins at the blank and skips it
      rw [if_pos (by omega), ← same, List.drop_left, sscanfBlank, sscanfTimes]
    · have digits : ∀ c ∈ (decimal n).drop ((decimal i).length + 1), isDecimal c = true :=
        fun c member => decimalDigits n c (List.mem_of_mem_drop member)
      have some : (decimal n).drop ((decimal i).length + 1) ≠ [] := by
        rw [ne_eq, List.drop_eq_nil_iff]
        omega
      have scan := scanDigits 0 some digits (stopsCons (c := 32) rfl (cells row.cells))
      have nine := scannedNine row
      rw [if_neg (by omega), List.drop_append_of_le_length (by omega)]
      unfold sscanf
      rw [show (decimal n).drop ((decimal i).length + 1) ++ 32 :: cells row.cells =
        blanks 0 ++ ((decimal n).drop ((decimal i).length + 1) ++ 32 :: cells row.cells) from rfl, scan]
      simp only [sscanfBlank, nine]

theorem nthCells (row : CpuTimes) {j : Nat} (inside : j < 9) : ((times row).take 9).getD j 0 = row.nth j := by
  have kept : ((times row).take 9)[j]? = (times row)[j]? := List.getElem?_take_of_lt inside
  rw [List.getD_eq_getElem?_getD, kept, ← List.getD_eq_getElem?_getD, timesNth]

theorem foundHolds (s : CpuStat) (i n : Nat) (row : CpuTimes) :
    CpuHolds (s.put (found i n row)) row ↔ Labelled i n row := by
  unfold found Labelled
  by_cases narrow : (decimal n).length ≤ (decimal i).length + 1
  · rw [if_pos narrow]
    exact ⟨fun _ => Or.inl narrow,fun _ => putHolds s row⟩
  · rw [if_neg narrow]
    simp only [narrow, false_or]
    generalize longLong (value ((decimal n).drop ((decimal i).length + 1))) = first
    have shifted (j : Nat) (inside : j < 9) : (first :: (times row).take 9).getD (j + 1) 0 = row.nth j := by
      rw [List.getD_cons_succ, nthCells row inside]
    constructor
    · intro holds
      have user : first = row.nth 0 := holds.user
      have nice := (shifted 0 (by decide)).symm.trans holds.nice
      have sys := (shifted 1 (by decide)).symm.trans holds.sys
      have idle := (shifted 2 (by decide)).symm.trans holds.idle
      have wait := (shifted 3 (by decide)).symm.trans holds.wait
      have irq := (shifted 4 (by decide)).symm.trans holds.irq
      have softirq := (shifted 5 (by decide)).symm.trans holds.softirq
      have steal := (shifted 6 (by decide)).symm.trans holds.steal
      have guest := (shifted 7 (by decide)).symm.trans holds.guest
      have guestNice := (shifted 8 (by decide)).symm.trans holds.guestNice
      intro j inside
      interval_cases j <;> omega
    · intro alike
      have same (j : Nat) (inside : j < 9) : (first :: (times row).take 9).getD (j + 1) 0 = row.nth (j + 1) := by
        rw [shifted j inside, alike j (by omega), alike (j + 1) (by omega)]
      exact ⟨(alike 0 (by decide)).symm,same 0 (by decide),same 1 (by decide),same 2 (by decide),
        same 3 (by decide),same 4 (by decide),same 5 (by decide),same 6 (by decide),same 7 (by decide),
        same 8 (by decide)⟩

theorem cleanGapped (file : GappedFile) : ∀ l ∈ file.lines, Clean l := by
  intro l member
  rcases List.mem_cons.mp member with rfl | cpu
  · exact cleanCpu (by decide) file.total
  · obtain ⟨⟨n,row⟩,_,rfl⟩ := List.mem_map.mp cpu
    exact cleanCpu (cleanDecimal n) row

theorem gappedLength (file : GappedFile) : file.lines.length = file.cpus.length + 1 := by
  simp [GappedFile.lines]

theorem gappedFew (file : GappedFile) : file.lines.length < procMaxlines - 1 := by
  have few := file.fewCpus
  rw [gappedLength]
  unfold procMaxlines
  omega

theorem gappedLine {file : GappedFile} {i n : Nat} {row : CpuTimes} (there : file.cpus[i]? = some (n,row)) :
    file.lines[i + 1]? = some (cpuText (decimal n) row) := by
  unfold GappedFile.lines
  rw [List.getElem?_cons_succ, List.getElem?_map, there]
  rfl

theorem placeBelow {numbers : List Nat} (increasing : numbers.Pairwise (· < ·)) {i n : Nat}
    (there : numbers[i]? = some n) : i ≤ n := by
  induction i generalizing n with
  | zero => exact Nat.zero_le n
  | succ i ih =>
    have inside : i + 1 < numbers.length := (List.getElem?_eq_some_iff.mp there).1
    have before := List.getElem?_eq_getElem (Nat.lt_of_succ_lt inside)
    have less := List.pairwise_iff_getElem.mp increasing i (i + 1) (Nat.lt_of_succ_lt inside) inside
      (Nat.lt_succ_self i)
    rw [(List.getElem?_eq_some_iff.mp there).2] at less
    exact Nat.lt_of_le_of_lt (ih before) less

theorem numberedBelow {file : GappedFile} {i n : Nat} {row : CpuTimes} (there : file.cpus[i]? = some (n,row)) :
    i ≤ n := by
  apply placeBelow file.increasing
  rw [List.getElem?_map, there]
  rfl

theorem countGapped {info : NmonProc} {file : GappedFile} (shows : Shows info file.lines)
    (ends : ∃ text, info.text (file.cpus.length + 1) 0 = .ok text ∧ ¬ ascii "cpu" <+: text) {n : Nat}
    (enough : file.cpus.length ≤ n) : countCpus info (List.range' 1 n) 0 = .ok file.cpus.length := by
  obtain ⟨text,read,other⟩ := ends
  rw [← List.isPrefixOf_iff_prefix] at other
  refine countCpusTo ?_ ⟨text,read,other⟩ (Nat.zero_le _) (by omega)
  intro k more
  obtain ⟨⟨number,row⟩,there⟩ : ∃ cpu, file.cpus[k]? = some cpu := ⟨_,List.getElem?_eq_getElem more⟩
  exact ⟨_,(shows _ _ (gappedLine there)).2 0 (Nat.zero_le _),rfl⟩

theorem numberLineTotal {info : NmonProc} (readable : Readable info) (i : Nat) (label : String) :
    ∃ n, numberLine info i label = .ok n := by
  unfold numberLine
  by_cases inside : i ≤ info.lines
  · obtain ⟨text,read⟩ := readable i inside
    rw [if_pos inside, read]
    exact ⟨_,rfl⟩
  · rw [if_neg inside]
    exact ⟨-1,rfl⟩

theorem placesTotal {info : NmonProc} (readable : Readable info) {cpus : Nat} (inside : cpus + 1 ≤ info.lines)
    (g : Statics) : ∃ next, g.places info cpus = .ok next := by
  obtain ⟨text,read⟩ := readable (cpus + 1) inside
  unfold Statics.places
  rw [read]
  simp only [bind, Except.bind]
  split
  · exact ⟨_,rfl⟩
  · split
    · exact ⟨_,rfl⟩
    · exact ⟨_,rfl⟩

theorem procCpuScanned {g : Statics} (due : g.procCpuDone ≠ 1) (width : g.procCpuFirstTime = true ∨ g.stat10 = 10)
    {info : NmonProc} (readable : Readable info) {total : CpuTimes}
    (head : info.text 0 5 = .ok (cells total.cells)) {cpus : Nat} (inside : cpus + 1 ≤ info.lines)
    (columns : Nat → List Int)
    (each : ∀ i < cpus, (columns i).length = 10 ∧
      ∃ text, info.text (i + 1) (cpuRow i) = .ok text ∧ sscanf longLong 10 text = columns i)
    (cpuTotal : CpuStat) (cpuN : Nat → CpuStat) :
    ∃ next sum after, procCpu g info cpus cpuTotal cpuN = .ok (next,sum,after) ∧
      ∀ i < cpus, after i = (cpuN i).put (columns i) := by
  obtain ⟨first,firstIs,firstWidth⟩ : ∃ first, (if g.oldCpus ≠ cpus then {g with intrLine := 0} else g) = first ∧
      (first.procCpuFirstTime = true ∨ first.stat10 = 10) := by
    refine ⟨_,rfl,?_⟩
    split
    · exact width
    · exact width
  have ten := widthsTen total firstWidth
  obtain ⟨left,after,ran,set,_⟩ := cpuLinesScanned ten columns each
    (stored (sscanf longLong (first.widths (cells total.cells)).conversions (cells total.cells))
      (List.replicate 10 0)) cpuN
  obtain ⟨placed,placing⟩ := placesTotal readable inside (first.widths (cells total.cells))
  obtain ⟨intr,intrRead⟩ := numberLineTotal readable placed.intrLine "intr"
  obtain ⟨ctxt,ctxtRead⟩ := numberLineTotal readable placed.ctxtLine "ctxt"
  obtain ⟨procs,procsRead⟩ := numberLineTotal readable placed.procLine "processes"
  obtain ⟨running,runningRead⟩ := numberLineTotal readable placed.runLine "procs_running"
  obtain ⟨blocked,blockedRead⟩ := numberLineTotal readable placed.blockLine "procs_blocked"
  unfold procCpu
  rw [if_neg due]
  simp only [firstIs, head, bind, Except.bind, ran, placing, intrRead, ctxtRead, procsRead, runningRead, blockedRead]
  exact ⟨_,_,after,rfl,set⟩

theorem cpuPlain : ∀ c ∈ ascii "cpu", c ≠ 0 ∧ c ≠ 32 := by decide +kernel

theorem entryCleared {r : Reader} (ten : Ten r) : Entry .stat {r.stat with readThisInterval := 0} :=
  ⟨ten.entry.named,ten.entry.opened,ten.entry.sized⟩

theorem gappedCounted {files : Files} (opens : ∀ name, files.opens name = true) {file : GappedFile}
    (there : files.contents ProcFile.stat.filename = file.text) {r : Reader} (ten : Ten r)
    (fits : (unlines file.lines).length ≤ room r.stat) :
    ∃ read, getCpuCnt files r.statics {r.stat with readThisInterval := 0} =
        .ok ({r.statics with procCpuDone := 0},read,file.cpus.length) ∧
      Readable read ∧ Shows read file.lines ∧ file.cpus.length + 1 ≤ read.lines := by
  obtain ⟨read,ran,_,_,table⟩ := procReadTable opens (by decide) (entryCleared ten) rfl r.statics
  have same : room {r.stat with readThisInterval := 0} = room r.stat := rfl
  rw [there, GappedFile.text, List.take_append, same, List.take_of_length_le fits] at table
  rw [if_pos rfl] at ran
  have clean := cleanGapped file
  have readable := tableReadable table
  have shows := tableShows clean (Nat.lt_of_lt_of_le (gappedFew file) (Nat.sub_le _ _)) table
  have length := gappedLength file
  have inside : file.cpus.length + 1 ≤ read.lines := by
    have last := List.getElem?_eq_getElem (show file.cpus.length < file.lines.length by omega)
    exact (shows _ _ last).1
  have ends : ∃ text, read.text (file.cpus.length + 1) 0 = .ok text ∧ ¬ ascii "cpu" <+: text := by
    obtain ⟨text,behind⟩ := readable _ inside
    refine ⟨text,behind,?_⟩
    intro begins
    rw [← length] at behind
    have cut := tableBehind clean (gappedFew file) table behind cpuPlain begins
    exact file.behind (cut.trans (List.take_prefix _ _))
  have counted := countGapped shows ends (n := read.lines - 1) (by omega)
  have few := file.fewCpus
  refine ⟨read,?_,readable,shows,inside⟩
  unfold getCpuCnt
  simp only [ran, counted, bind, Except.bind]
  rw [if_neg (by unfold vmpCpumax; omega)]

theorem gappedFound {files : Files} (opens : ∀ name, files.opens name = true) {file : GappedFile}
    (there : files.contents ProcFile.stat.filename = file.text) {r : Reader} (ten : Ten r)
    (fits : (unlines file.lines).length ≤ room r.stat) (cpuTotal : CpuStat) (cpuN : Nat → CpuStat) :
    ∃ next report, readCpus files cpuTotal cpuN r = .ok (next,report) ∧
      ∀ i n row, file.cpus[i]? = some (n,row) → report.cpuN i = (cpuN i).put (found i n row) := by
  obtain ⟨read,count,readable,shows,inside⟩ := gappedCounted opens there ten fits
  have head : read.text 0 5 = .ok (cells file.total.cells) := (shows 0 _ rfl).2 5 (by simp [cpuText, ascii])
  have columns (i n : Nat) (row : CpuTimes) (cpu : file.cpus[i]? = some (n,row)) :
      ((file.cpus[i]?).map (fun cpu => found i cpu.1 cpu.2)).getD [] = found i n row := by
    rw [cpu]
    rfl
  obtain ⟨next,sum,after,cpu,set⟩ := procCpuScanned (g := {r.statics with procCpuDone := 0})
    (show (0 : Int) ≠ 1 by decide) ten.width readable head inside
    (fun i => ((file.cpus[i]?).map (fun cpu => found i cpu.1 cpu.2)).getD []) (fun i small => by
      obtain ⟨⟨n,row⟩,line⟩ : ∃ cpu, file.cpus[i]? = some cpu := ⟨_,List.getElem?_eq_getElem small⟩
      obtain ⟨short,scan⟩ := foundBehind (Nat.lt_trans small file.fewCpus) (numberedBelow line) row
      rw [columns i n row line]
      exact ⟨foundTen i n row,_,(shows _ _ (gappedLine line)).2 _ short,scan⟩) cpuTotal cpuN
  unfold readCpus
  simp only [count, cpu, bind, Except.bind]
  refine ⟨_,_,rfl,?_⟩
  intro i n row line
  show after i = _
  rw [set i (List.getElem?_eq_some_iff.mp line).1, columns i n row line]

theorem countCpusMost {info : NmonProc} {k n cpus : Nat}
    (ran : countCpus info (List.range' (k + 1) n) k = .ok cpus) : cpus ≤ k + n := by
  induction n generalizing k with
  | zero =>
    have same : k = cpus := Except.ok.inj ran
    omega
  | succ n ih =>
    rw [List.range'_succ] at ran
    unfold countCpus at ran
    cases read : info.text (k + 1) 0 with
    | error stop =>
      rw [read] at ran
      cases ran
    | ok text =>
      rw [read] at ran
      simp only [bind, Except.bind] at ran
      split at ran
      · have := ih ran
        omega
      · have same : k = cpus := Except.ok.inj ran
        omega

theorem getCpuCntMost {files : Files} {g next h : Statics} {info read after : NmonProc} {cpus : Nat}
    (ran : procRead files g info .stat false = (next,read)) (counted : getCpuCnt files g info = .ok (h,after,cpus)) :
    cpus ≤ read.lines - 1 := by
  unfold getCpuCnt at counted
  simp only [ran, bind, Except.bind] at counted
  cases count : countCpus read (List.range' 1 (read.lines - 1)) 0 with
  | error stop =>
    rw [count] at counted
    cases counted
  | ok n =>
    rw [count] at counted
    dsimp only at counted
    split at counted
    · cases counted
    · cases Except.ok.inj counted
      have most := countCpusMost (k := 0) count
      omega

theorem cpuLinesKept {g : Statics} {info : NmonProc} {n : Nat} {vars left : List Int} {cpuN after : Nat → CpuStat}
    (ran : (List.range n).foldlM (cpuLine g info) (vars,cpuN) = .ok (left,after)) {i : Nat} (behind : n ≤ i) :
    after i = cpuN i := by
  induction n generalizing left after with
  | zero =>
    cases Except.ok.inj ran
    rfl
  | succ n ih =>
    rw [List.range_succ, List.foldlM_append] at ran
    cases before : (List.range n).foldlM (cpuLine g info) (vars,cpuN) with
    | error stop =>
      rw [before] at ran
      cases ran
    | ok between =>
      obtain ⟨passed,state⟩ := between
      rw [before] at ran
      simp only [bind, Except.bind, List.foldlM_cons, List.foldlM_nil, cpuLine] at ran
      split at ran
      · cases ran
      · rename_i line
        split at line
        · cases line
        · cases Except.ok.inj line
          cases Except.ok.inj ran
          rw [Function.update_of_ne (by omega)]
          exact ih before (by omega)

theorem procCpuKept {g next : Statics} {info : NmonProc} {cpus : Nat} {cpuTotal sum : CpuStat}
    {cpuN after : Nat → CpuStat} (ran : procCpu g info cpus cpuTotal cpuN = .ok (next,sum,after)) {i : Nat}
    (behind : cpus ≤ i) : after i = cpuN i := by
  unfold procCpu at ran
  split at ran
  · cases Except.ok.inj ran
    rfl
  · simp only [bind, Except.bind] at ran
    split at ran
    · cases ran
    · split at ran
      · cases ran
      · rename_i loop
        iterate 6
          split at ran
          · cases ran
        cases Except.ok.inj ran
        exact cpuLinesKept loop behind

theorem gappedCut {files : Files} (opens : ∀ name, files.opens name = true) {file : GappedFile}
    (there : files.contents ProcFile.stat.filename = file.text) {r : Reader} (ten : Ten r)
    (cut : room r.stat < (unlines file.lines).length) {cpuTotal : CpuStat} {cpuN : Nat → CpuStat} {next : Reader}
    {report : CpuReport} (ran : readCpus files cpuTotal cpuN r = .ok (next,report)) {i : Nat}
    (last : file.cpus.length ≤ i + 1) : report.cpuN i = cpuN i := by
  obtain ⟨read,reading,_,_,table⟩ := procReadTable opens (by decide) (entryCleared ten) rfl r.statics
  have same : room {r.stat with readThisInterval := 0} = room r.stat := rfl
  have few : read.lines < file.cpus.length + 1 := by
    have newlines := unlinesShort (cleanGapped file) cut
    rw [there, GappedFile.text, same, List.take_append_of_le_length (Nat.le_of_lt cut)] at table
    have starts := splitStarts 0 0 ((unlines file.lines).take (room r.stat))
    rw [← table.lines] at starts
    rw [gappedLength] at newlines
    omega
  unfold readCpus at ran
  simp only [bind, Except.bind] at ran
  split at ran
  · cases ran
  · rename_i counts count
    obtain ⟨g,stat,cpus⟩ := counts
    have most := getCpuCntMost reading count
    split at ran
    · cases ran
    · rename_i sums cpu
      obtain ⟨h,sum,after⟩ := sums
      cases Except.ok.inj ran
      have behind : cpus ≤ i := by omega
      exact procCpuKept cpu behind

/- The columns of every CPU line are stored exactly if the CPU lines are read whole and each label is
about as wide as the place of its line. -/
theorem gappedColumns {files : Files} (opens : ∀ name, files.opens name = true) {file : GappedFile}
    (there : files.contents ProcFile.stat.filename = file.text) {r : Reader} (ten : Ten r) :
    StoresColumns files file r ↔
      ∀ i n row, file.cpus[i]? = some (n,row) → (unlines file.lines).length ≤ room r.stat ∧ Labelled i n row := by
  constructor
  · intro stores i n row line
    have fits : (unlines file.lines).length ≤ room r.stat := by
      by_contra cut
      have inside : i < file.cpus.length := (List.getElem?_eq_some_iff.mp line).1
      obtain ⟨⟨number,columns⟩,last⟩ : ∃ cpu, file.cpus[file.cpus.length - 1]? = some cpu :=
        ⟨_,List.getElem?_eq_getElem (by omega)⟩
      obtain ⟨next,report,ran,holds⟩ := stores zeroCpu
        (fun _ => {zeroCpu with user := columns.nth 0 + 1}) _ _ _ last
      have kept := gappedCut opens there ten (by omega) ran (i := file.cpus.length - 1) (by omega)
      have user := holds.user
      rw [kept] at user
      dsimp only at user
      omega
    refine ⟨fits,?_⟩
    obtain ⟨next,report,ran,each⟩ := gappedFound opens there ten fits zeroCpu (fun _ => zeroCpu)
    obtain ⟨_,_,again,holds⟩ := stores zeroCpu (fun _ => zeroCpu) i n row line
    rw [ran] at again
    cases Except.ok.inj again
    rw [each i n row line] at holds
    exact (foundHolds _ i n row).mp holds
  · intro right cpuTotal cpuN i n row line
    obtain ⟨fits,label⟩ := right i n row line
    obtain ⟨next,report,ran,each⟩ := gappedFound opens there ten fits cpuTotal cpuN
    refine ⟨next,report,ran,?_⟩
    rw [each i n row line]
    exact (foundHolds _ i n row).mpr label

theorem restBehind : ¬ ascii "cpu" <+: ascii "intr 42 40\n" := by decide

def twoCpus (other : Nat) (more : 0 < other) : GappedFile where
  total := usedCpu 72 (by decide)
  cpus := [(0,usedCpu 6 (by decide)),(other,usedCpu 66 (by decide))]
  rest := ascii "intr 42 40\n"
  increasing := List.pairwise_pair.mpr more
  fewCpus := Nat.le_add_left 3 1533
  behind := restBehind

def filesOf (file : GappedFile) : Files := ⟨fun _ => true,fun _ => file.text⟩

theorem filesOpen (file : GappedFile) : ∀ name, (filesOf file).opens name = true := fun _ => rfl

theorem filesThere (file : GappedFile) : (filesOf file).contents ProcFile.stat.filename = file.text := rfl

theorem tenStart : Ten ⟨.initial,closed⟩ := tenCurrent ⟨settledInitial,rfl,Or.inl rfl,Or.inl rfl⟩

theorem twoDigits : StoresColumns (filesOf (twoCpus 10 (by decide))) (twoCpus 10 (by decide)) ⟨.initial,closed⟩ := by
  refine (gappedColumns (filesOpen _) (filesThere _) tenStart).mpr ?_
  intro i n row line
  refine ⟨by decide +kernel,?_⟩
  match i, line with
  | 0, line =>
    cases Option.some.inj line
    exact Or.inl (by decide)
  | 1, line =>
    cases Option.some.inj line
    exact Or.inl (by decide)

theorem threeDigits : ∃ next report, readCpus (filesOf (twoCpus 128 (by decide))) zeroCpu (fun _ => zeroCpu)
      ⟨.initial,closed⟩ = .ok (next,report) ∧ (report.cpuN 1).user = 8 ∧ (report.cpuN 1).nice = 66 ∧
    ¬ StoresColumns (filesOf (twoCpus 128 (by decide))) (twoCpus 128 (by decide)) ⟨.initial,closed⟩ := by
  obtain ⟨next,report,ran,each⟩ := gappedFound (filesOpen (twoCpus 128 (by decide))) (filesThere _)
    tenStart (by decide +kernel) zeroCpu (fun _ => zeroCpu)
  have second := each 1 128 _ rfl
  have user : (report.cpuN 1).user = 8 := by
    rw [second]
    decide +kernel
  refine ⟨next,report,ran,user,?_,?_⟩
  · rw [second]
    decide +kernel
  · intro stores
    obtain ⟨_,_,again,holds⟩ := stores zeroCpu (fun _ => zeroCpu) 1 128 _ rfl
    rw [ran] at again
    cases Except.ok.inj again
    have wrong := user.symm.trans holds.user
    exact absurd wrong (by decide +kernel)

end VmpRl.CpuLabels

