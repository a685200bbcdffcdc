import Mathlib.Data.List.GetD
import VmpRl.NmonLines

/-! `get_cpu_cnt` and `proc_cpu` on `/proc/stat` in the kernel's layout: the CPUs are counted,
and the total and every CPU get the numbers of their lines. -/
namespace VmpRl.NmonStat
open Octets Text CRuntime Nmon ProcFiles NmonLines

theorem cleanAppend {left right : Bytes} (first : Clean left) (second : Clean right) : Clean (left ++ right) := by
  simp only [Clean, List.mem_append, not_or]
  exact ⟨⟨first.1,second.1⟩,⟨first.2.1,second.2.1⟩,first.2.2,second.2.2⟩

theorem cleanCells (row : List (Nat × Nat)) : Clean (cells row) :=
  ⟨cellsAvoid (by decide) rfl,cellsAvoid (by decide) rfl,cellsAvoid (by decide) rfl⟩

theorem cleanDecimal (n : Nat) : Clean (decimal n) := by
  have shape : cells [(0,n)] = decimal n := by simp [cells, blanks]
  rw [← shape]
  exact cleanCells _

theorem cleanCpu {label : Bytes} (clean : Clean label) (row : CpuTimes) : Clean (cpuText label row) := by
  have shape : cpuText label row = ascii "cpu" ++ (label ++ ([32] ++ cells row.cells)) := by simp [cpuText]
  have word : Clean (ascii "cpu") := by decide
  have blank : Clean [32] := by decide
  rw [shape]
  exact cleanAppend word (cleanAppend clean (cleanAppend blank (cleanCells _)))

theorem cleanNumber {label : String} (clean : Clean (ascii label)) (n : Nat) {rest : Bytes}
    (behind : Clean rest) : Clean (numberText label n rest) := by
  have blank : Clean (blanks 1) := by decide
  exact cleanAppend clean (cleanAppend blank (cleanAppend (cleanDecimal n) behind))

theorem cleanStat (file : StatFile) : ∀ l ∈ file.lines, Clean l := by
  intro l member
  have none : Clean [] := by decide
  rcases List.mem_cons.mp member with rfl | member
  · exact cleanCpu (by decide) file.total
  · rcases List.mem_append.mp member with cpu | number
    · obtain ⟨i,inside,rfl⟩ := List.mem_mapIdx.mp cpu
      exact cleanCpu (cleanDecimal i) _
    · simp only [List.mem_cons, List.not_mem_nil, or_false] at number
      rcases number with rfl | rfl | rfl | rfl | rfl | rfl
      · exact cleanNumber (by decide) _ file.irqsClean
      · exact cleanNumber (by decide) _ none
      · exact cleanNumber (by decide) _ none
      · exact cleanNumber (by decide) _ none
      · exact cleanNumber (by decide) _ none
      · exact cleanNumber (by decide) _ none

theorem totalLine (s : StatCounts) : s.lines[0]? = some (cpuText [32] s.total) := rfl

theorem cpuLineAt {s : StatCounts} {i : Nat} {row : CpuTimes} (there : s.cpus[i]? = some row) :
    s.lines[i + 1]? = some (cpuText (decimal i) row) := by
  have bound : i < s.cpus.length := (List.getElem?_eq_some_iff.mp there).1
  unfold StatCounts.lines
  rw [List.getElem?_cons_succ, List.getElem?_append_left (by simpa using bound), List.getElem?_mapIdx, there]
  rfl

theorem numberLineAt (s : StatCounts) (j : Nat) :
    s.lines[s.cpus.length + 1 + j]? =
      [numberText "intr" s.intr s.irqs,numberText "ctxt" s.ctxt [],numberText "btime" s.btime [],
       numberText "processes" s.processes [],numberText "procs_running" s.procsRunning [],
       numberText "procs_blocked" s.procsBlocked []][j]? := by
  have place : s.cpus.length + 1 + j = s.cpus.length + j + 1 := by omega
  unfold StatCounts.lines
  rw [place, List.getElem?_cons_succ, List.getElem?_append_right (by simp)]
  simp

theorem linesLength (s : StatCounts) : s.lines.length = s.cpus.length + 7 := by
  simp [StatCounts.lines]

theorem statFew (file : StatFile) : file.lines.length < procMaxlines := by
  have cpus := file.fewCpus
  rw [linesLength]
  unfold procMaxlines
  omega

theorem countCpusTo {info : NmonProc} {cpus : Nat}
    (each : ∀ k < cpus, ∃ text, info.text (k + 1) 0 = .ok text ∧ (ascii "cpu").isPrefixOf text = true)
    (ends : ∃ text, info.text (cpus + 1) 0 = .ok text ∧ ¬ (ascii "cpu").isPrefixOf text = true) {k n : Nat}
    (low : k ≤ cpus) (enough : cpus ≤ k + n) : countCpus info (List.range' (k + 1) n) k = .ok cpus := by
  induction n generalizing k with
  | zero =>
    have last : k = cpus := by omega
    rw [last]
    rfl
  | succ n ih =>
    rw [List.range'_succ]
    unfold countCpus
    by_cases more : k < cpus
    · obtain ⟨text,read,cpu⟩ := each k more
      rw [read]
      simp only [bind, Except.bind, if_pos cpu]
      exact ih more (by omega)
    · have last : k = cpus := by omega
      obtain ⟨text,read,other⟩ := ends
      rw [last, read]
      simp only [bind, Except.bind, if_neg other]

theorem countCpusShown {info : NmonProc} {s : StatCounts} (shows : Shows info s.lines) {n : Nat}
    (enough : s.cpus.length ≤ n) : countCpus info (List.range' 1 n) 0 = .ok s.cpus.length := by
  refine countCpusTo ?_ ?_ (Nat.zero_le _) (by omega)
  · intro k more
    have there : s.cpus[k]? = some s.cpus[k] := List.getElem?_eq_getElem more
    exact ⟨_,(shows _ _ (cpuLineAt there)).2 0 (Nat.zero_le _),rfl⟩
  · have other : ¬ (ascii "cpu").isPrefixOf (numberText "intr" s.intr s.irqs) = true := by
      intro same
      exact absurd same (by simp [numberText, ascii])
    exact ⟨_,(shows _ _ (numberLineAt s 0)).2 0 (Nat.zero_le _),other⟩

def times (row : CpuTimes) : List Int := row.cells.map (fun cell => (cell.2 : Int))

theorem timesLength (row : CpuTimes) : (times row).length = 10 := by
  rw [times, List.length_map, row.counted]

theorem sscanfTimes (row : CpuTimes) : sscanf longLong 10 (cells row.cells) = times row := by
  have scanned := sscanfColumns (fun n => (n : Int)) row (fun n small => longLongExact small)
    (Nat.le_refl 10) stopsNil
  rw [List.append_nil, List.take_of_length_le (by rw [row.counted])] at scanned
  exact scanned

theorem putStored (s : CpuStat) {values : List Int} (ten : values.length = 10) (vars : List Int) :
    s.put (stored values vars) = s.put values := by
  have same (i : Nat) (inside : i < 10) : (stored values vars).getD i 0 = values.getD i 0 :=
    List.getD_append _ _ _ _ (by rw [ten]; exact inside)
  unfold CpuStat.put
  simp (disch := decide) only [same]

/- The row of the source is the place behind the number of the CPU and one blank. -/
theorem cpuRowLength {i : Nat} (few : i < 1536) : cpuRow i = (decimal i).length + 4 := by
  unfold cpuRow
  rcases Nat.lt_or_ge i 10 with small | large
  · rcases Nat.eq_zero_or_pos i with rfl | positive
    · rfl
    · rw [decimalLength (k := 0) (by omega) (by omega), if_neg (by omega), if_neg (by omega), if_neg (by omega)]
  · rcases Nat.lt_or_ge i 100 with tens | large
    · rw [decimalLength (k := 1) (by omega) (by omega), if_neg (by omega), if_neg (by omega), if_pos (by omega)]
    · rcases Nat.lt_or_ge i 1000 with hundreds | thousands
      · rw [decimalLength (k := 2) (by omega) (by omega), if_neg (by omega), if_pos (by omega)]
      · rw [decimalLength (k := 3) (by omega) (by omega), if_pos (by omega)]

theorem cpuLineScanned {g : Statics} (ten : g.stat10 = 10) {info : NmonProc} {i : Nat} {text : Bytes}
    (there : info.text (i + 1) (cpuRow i) = .ok text) (scanned : (sscanf longLong 10 text).length = 10)
    (vars : List Int) (cpuN : Nat → CpuStat) :
    ∃ left, cpuLine g info (vars,cpuN) i =
      .ok (left,Function.update cpuN i ((cpuN i).put (sscanf longLong 10 text))) := by
  have conversions : g.conversions = 10 := if_pos ten
  unfold cpuLine
  simp only [there, bind, Except.bind, conversions, putStored _ scanned]
  exact ⟨_,rfl⟩

theorem cpuLinesScanned {g : Statics} (ten : g.stat10 = 10) {info : NmonProc} (columns : Nat → List Int) {n : Nat}
    (each : ∀ i < n, (columns i).length = 10 ∧
      ∃ text, info.text (i + 1) (cpuRow i) = .ok text ∧ sscanf longLong 10 text = columns i)
    (vars : List Int) (cpuN : Nat → CpuStat) :
    ∃ left after, (List.range n).foldlM (cpuLine g info) (vars,cpuN) = .ok (left,after) ∧
      (∀ i < n, after i = (cpuN i).put (columns i)) ∧ ∀ i, n ≤ i → after i = cpuN i := by
  induction n with
  | zero => exact ⟨vars,cpuN,rfl,fun i none => absurd none (Nat.not_lt_zero i),fun _ _ => rfl⟩
  | succ n ih =>
    obtain ⟨left,before,ran,set,kept⟩ := ih (fun i small => each i (Nat.lt_succ_of_lt small))
    obtain ⟨length,text,there,same⟩ := each n (Nat.lt_succ_self n)
    obtain ⟨next,line⟩ := cpuLineScanned ten there (by rw [same]; exact length) left before
    rw [same] at line
    refine ⟨next,Function.update before n ((before n).put (columns n)),?_,?_,?_⟩
    · rw [List.range_succ, List.foldlM_append, ran]
      simp only [bind, Except.bind, List.foldlM_cons, line, List.foldlM_nil]
      rfl
    · intro i small
      rcases Nat.lt_succ_iff_lt_or_eq.mp small with earlier | rfl
      · rw [Function.update_of_ne (Nat.ne_of_lt earlier)]
        exact set i earlier
      · rw [Function.update_self, kept i (Nat.le_refl i)]
    · intro i behind
      rw [Function.update_of_ne (by omega)]
      exact kept i (by omega)

theorem cpuTextRead {info : NmonProc} {file : StatFile} (shows : Shows info file.lines) {i : Nat} {row : CpuTimes}
    (there : file.cpus[i]? = some row) : info.text (i + 1) (cpuRow i) = .ok (cells row.cells) := by
  have few : i < 1536 := Nat.lt_trans (List.getElem?_eq_some_iff.mp there).1 file.fewCpus
  have place := cpuRowLength few
  have shape : cpuText (decimal i) row = (ascii "cpu" ++ decimal i ++ [32]) ++ cells row.cells := by
    simp [cpuText]
  have length : (ascii "cpu" ++ decimal i ++ [32]).length = cpuRow i := by
    have word : (ascii "cpu").length = 3 := rfl
    simp only [List.length_append, List.length_singleton, word]
    omega
  have text := (shows _ _ (cpuLineAt there)).2 (cpuRow i) (by rw [shape, List.length_append]; omega)
  rw [shape, ← length, List.drop_left] at text
  rw [length] at text
  exact text

theorem cpuLinesRead {g : Statics} (ten : g.stat10 = 10) {info : NmonProc} {file : StatFile}
    (shows : Shows info file.lines) (vars : List Int) (cpuN : Nat → CpuStat) :
    ∃ left after, (List.range file.cpus.length).foldlM (cpuLine g info) (vars,cpuN) = .ok (left,after) ∧
      ∀ i row, file.cpus[i]? = some row → after i = (cpuN i).put (times row) := by
  have columns (i : Nat) (row : CpuTimes) (there : file.cpus[i]? = some row) :
      ((file.cpus[i]?).map times).getD [] = times row := by
    rw [there]
    rfl
  obtain ⟨left,after,ran,set,_⟩ := cpuLinesScanned ten (fun i => ((file.cpus[i]?).map times).getD [])
    (n := file.cpus.length) (fun i inside => by
      have there := List.getElem?_eq_getElem inside
      rw [columns i _ there]
      exact ⟨timesLength _,_,cpuTextRead shows there,sscanfTimes _⟩) vars cpuN
  refine ⟨left,after,ran,?_⟩
  intro i row there
  rw [set i (List.getElem?_eq_some_iff.mp there).1, columns i row there]

theorem numberLineRead {info : NmonProc} {ls : List Bytes} (shows : Shows info ls) {i n : Nat}
    {label : String} {rest : Bytes} (there : ls[i]? = some (numberText label n rest)) (stops : Stops rest)
    (small : n < 2 ^ 63) : numberLine info i label = .ok (n : Int) := by
  obtain ⟨inside,text⟩ := shows i _ there
  unfold numberLine
  rw [if_pos (Nat.le_of_lt inside), text 0 (Nat.zero_le _), List.drop_zero]
  simp only [bind, Except.bind, numberText, sscanfAfterDecimal (ascii label) 1 n stops small]
  rfl

structure Placed (g : Statics) (cpus : Nat) : Prop where
  intr : g.intrLine = cpus + 1
  ctxt : g.ctxtLine = cpus + 2
  procs : g.procLine = cpus + 4
  running : g.runLine = cpus + 5
  blocked : g.blockLine = cpus + 6

structure Tuned (g : Statics) (cpus : Nat) : Prop where
  width : g.procCpuFirstTime = true ∨ g.stat10 = 10
  placed : g.oldCpus ≠ cpus ∨ g.intrLine = 0 ∨ Placed g cpus

theorem tunedInitial (cpus : Nat) : Tuned Statics.initial cpus := ⟨Or.inl rfl,Or.inr (Or.inl rfl)⟩

theorem widthsTen {g : Statics} (row : CpuTimes) (width : g.procCpuFirstTime = true ∨ g.stat10 = 10) :
    (g.widths (cells row.cells)).stat10 = 10 := by
  unfold Statics.widths
  by_cases first : g.procCpuFirstTime = true
  · rw [if_pos first]
    show (sscanf longLong 10 (cells row.cells)).length = 10
    rw [sscanfTimes, timesLength]
  · rw [if_neg first]
    rcases width with again | ten
    · exact absurd again first
    · exact ten

theorem widthsRead {g : Statics} {cpus : Nat} (row : CpuTimes)
    (width : g.procCpuFirstTime = true ∨ g.stat10 = 10) (placed : g.intrLine = 0 ∨ Placed g cpus) :
    (g.widths (cells row.cells)).stat10 = 10 ∧
    ((g.widths (cells row.cells)).intrLine = 0 ∨ Placed (g.widths (cells row.cells)) cpus) ∧
    (g.widths (cells row.cells)).netFp = g.netFp := by
  refine ⟨widthsTen row width,?_⟩
  unfold Statics.widths
  by_cases first : g.procCpuFirstTime = true
  · rw [if_pos first]
    refine ⟨?_,rfl⟩
    rcases placed with zero | ⟨intr,ctxt,procs,running,blocked⟩
    · exact Or.inl zero
    · exact Or.inr ⟨intr,ctxt,procs,running,blocked⟩
  · rw [if_neg first]
    exact ⟨placed,rfl⟩

theorem placesRead {g : Statics} {info : NmonProc} {s : StatCounts} (shows : Shows info s.lines)
    (placed : g.intrLine = 0 ∨ Placed g s.cpus.length) :
    ∃ next, g.places info s.cpus.length = .ok next ∧ Placed next s.cpus.length ∧
      next.stat10 = g.stat10 ∧ next.netFp = g.netFp := by
  unfold Statics.places
  by_cases unset : g.intrLine = 0
  · have text := (shows _ _ (numberLineAt s 0)).2 0 (Nat.zero_le _)
    have other : ¬ (ascii "page").isPrefixOf (numberText "intr" s.intr s.irqs) = true := by
      intro same
      exact absurd same (by simp [numberText, ascii])
    rw [Nat.add_zero] at text
    rw [if_neg (by simp [unset]), text]
    simp only [bind, Except.bind, List.drop_zero, if_neg other]
    exact ⟨_,rfl,⟨rfl,rfl,rfl,rfl,rfl⟩,rfl,rfl⟩
  · rw [if_pos unset]
    rcases placed with zero | placed
    · exact absurd zero unset
    · exact ⟨g,rfl,placed,rfl,rfl⟩

structure CpuHolds (s : CpuStat) (row : CpuTimes) : Prop where
  user : s.user = row.nth 0
  nice : s.nice = row.nth 1
  sys : s.sys = row.nth 2
  idle : s.idle = row.nth 3
  wait : s.wait = row.nth 4
  irq : s.irq = row.nth 5
  softirq : s.softirq = row.nth 6
  steal : s.steal = row.nth 7
  guest : s.guest = row.nth 8
  guestNice : s.guestNice = row.nth 9

structure TotalHolds (s : CpuStat) (file : StatCounts) : Prop extends CpuHolds s file.total where
  intr : s.intr = file.intr
  ctxt : s.ctxt = file.ctxt
  procs : s.procs = file.processes
  running : s.running = file.procsRunning
  blocked : s.blocked = file.procsBlocked

theorem timesNth (row : CpuTimes) (i : Nat) : (times row).getD i 0 = row.nth i := by
  have shape : times row = (row.cells.map Prod.snd).map (fun n : Nat => (n : Int)) := by
    rw [times, List.map_map]
    rfl
  rw [shape, Columns.nth]
  exact List.getD_map _ 0 (fun n : Nat => (n : Int))

theorem putHolds (s : CpuStat) (row : CpuTimes) : CpuHolds (s.put (times row)) row :=
  ⟨timesNth row 0,timesNth row 1,timesNth row 2,timesNth row 3,timesNth row 4,timesNth row 5,
    timesNth row 6,timesNth row 7,timesNth row 8,timesNth row 9⟩

theorem getCpuCntRead {files : Files} {g next : Statics} {info read : NmonProc} {file : StatFile}
    (ran : procRead files g info .stat false = (next,read)) (shows : Shows read file.lines) :
    getCpuCnt files g info = .ok (next,read,file.cpus.length) := by
  have intr := (shows _ _ (numberLineAt file.toStatCounts 0)).1
  have counted := countCpusShown shows (n := read.lines - 1) (by omega)
  have few := file.fewCpus
  unfold getCpuCnt
  simp only [ran, counted, bind, Except.bind]
  rw [if_neg (by unfold vmpCpumax; omega)]

theorem numbersRead {g : Statics} {info : NmonProc} {file : StatFile} (shows : Shows info file.lines)
    (placed : Placed g file.cpus.length) :
    numberLine info g.intrLine "intr" = .ok (file.intr : Int) ∧
    numberLine info g.ctxtLine "ctxt" = .ok (file.ctxt : Int) ∧
    numberLine info g.procLine "processes" = .ok (file.processes : Int) ∧
    numberLine info g.runLine "procs_running" = .ok (file.procsRunning : Int) ∧
    numberLine info g.blockLine "procs_blocked" = .ok (file.procsBlocked : Int) := by
  have number (j : Nat) := numberLineAt file.toStatCounts j
  have bounded := file.bounded
  simp only [List.mem_cons, List.not_mem_nil, or_false, forall_eq_or_imp, forall_eq] at bounded
  obtain ⟨intr,ctxt,_,procs,running,blocked⟩ := bounded
  rw [placed.intr, placed.ctxt, placed.procs, placed.running, placed.blocked]
  exact ⟨numberLineRead shows (number 0) file.irqsApart intr,numberLineRead shows (number 1) stopsNil ctxt,
    numberLineRead shows (number 3) stopsNil procs,numberLineRead shows (number 4) stopsNil running,
    numberLineRead shows (number 5) stopsNil blocked⟩

theorem recounted {g : Statics} {cpus : Nat} (tuned : Tuned g cpus) :
    ∃ first, (if g.oldCpus ≠ cpus then {g with intrLine := 0} else g) = first ∧
      (first.procCpuFirstTime = true ∨ first.stat10 = 10) ∧
      (first.intrLine = 0 ∨ Placed first cpus) ∧ first.netFp = g.netFp := by
  refine ⟨_,rfl,?_⟩
  by_cases same : g.oldCpus = cpus
  · rw [if_neg (by simpa using same)]
    rcases tuned.placed with changed | placed
    · exact absurd same changed
    · exact ⟨tuned.width,placed,rfl⟩
  · rw [if_pos same]
    exact ⟨tuned.width,Or.inl rfl,rfl⟩

theorem procCpuRead {g : Statics} {info : NmonProc} {file : StatFile} (shows : Shows info file.lines)
    (due : g.procCpuDone = 0) (tuned : Tuned g file.cpus.length) (cpuTotal : CpuStat)
    (cpuN : Nat → CpuStat) :
    ∃ next total after, procCpu g info file.cpus.length cpuTotal cpuN = .ok (next,total,after) ∧
      Tuned next file.cpus.length ∧ next.netFp = g.netFp ∧ TotalHolds total file.toStatCounts ∧
      ∀ i row, file.cpus[i]? = some row → CpuHolds (after i) row := by
  obtain ⟨first,firstIs,width,placed,firstNet⟩ := recounted tuned
  obtain ⟨ten,still,widthNet⟩ := widthsRead file.total width placed
  have head : info.text 0 5 = .ok (cells file.total.cells) :=
    (shows 0 _ (totalLine file.toStatCounts)).2 5 (by simp [cpuText, ascii])
  have conversions : (first.widths (cells file.total.cells)).conversions = 10 := if_pos ten
  obtain ⟨left,after,ran,set⟩ := cpuLinesRead ten shows
    (stored (times file.total) (List.replicate 10 0)) cpuN
  obtain ⟨next,placing,nextPlaced,nextTen,nextNet⟩ := placesRead shows still
  obtain ⟨intr,ctxt,procs,running,blocked⟩ := numbersRead shows nextPlaced
  unfold procCpu
  rw [if_neg (by rw [due]; decide)]
  simp only [firstIs, head, bind, Except.bind, conversions, sscanfTimes, ran, placing, intr, ctxt, procs, running,
    blocked]
  refine ⟨_,_,after,rfl,?_,?_,?_,?_⟩
  · obtain ⟨intrAt,ctxtAt,procsAt,runningAt,blockedAt⟩ := nextPlaced
    exact ⟨Or.inr (nextTen.trans ten),Or.inr (Or.inr ⟨intrAt,ctxtAt,procsAt,runningAt,blockedAt⟩)⟩
  · exact (nextNet.trans widthNet).trans firstNet
  · rw [putStored _ (timesLength _)]
    have times := putHolds cpuTotal file.total
    exact {user := times.user, nice := times.nice, sys := times.sys, idle := times.idle, wait := times.wait,
           irq := times.irq, softirq := times.softirq, steal := times.steal, guest := times.guest,
           guestNice := times.guestNice, intr := rfl, ctxt := rfl, procs := rfl, running := rfl,
           blocked := rfl}
  · intro i row there
    rw [set i row there]
    exact putHolds _ row

end VmpRl.NmonStat
