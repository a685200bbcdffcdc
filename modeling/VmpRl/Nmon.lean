import Mathlib.Logic.Function.Basic
import VmpRl.Base.Text
import VmpRl.CRuntime

/-! The readers of `/proc` in `vmp_nmon.c`, over the static variables they keep between
calls. What is printed is left out, sizes and counts are natural numbers, and allocation
succeeds. -/
namespace VmpRl.Nmon
open Octets Text CRuntime

structure Files where
  opens : String → Bool
  contents : String → Bytes

inductive ProcFile where
  | cpuinfo | stat | version | meminfo | uptime | loadavg | nfs | nfsd | vmstat
  deriving DecidableEq, Repr

def ProcFile.filename : ProcFile → String
  | .cpuinfo => "/proc/cpuinfo"
  | .stat => "/proc/stat"
  | .version => "/proc/version"
  | .meminfo => "/proc/meminfo"
  | .uptime => "/proc/uptime"
  | .loadavg => "/proc/loadavg"
  | .nfs => "/proc/net/rpc/nfs"
  | .nfsd => "/proc/net/rpc/nfsd"
  | .vmstat => "/proc/vmstat"

structure NetStat where
  ifName : Bytes
  ifIbytes : Nat
  ifObytes : Nat
  ifIpackets : Nat
  ifOpackets : Nat
  ifIerrs : Nat
  ifOerrs : Nat
  ifIdrop : Nat
  ifIfifo : Nat
  ifIframe : Nat
  ifOdrop : Nat
  ifOfifo : Nat
  ifOcarrier : Nat
  ifOcolls : Nat
  deriving DecidableEq, Repr

structure CpuStat where
  user : Int
  nice : Int
  sys : Int
  idle : Int
  wait : Int
  irq : Int
  softirq : Int
  steal : Int
  guest : Int
  guestNice : Int
  intr : Int
  ctxt : Int
  procs : Int
  running : Int
  blocked : Int
  deriving DecidableEq, Repr

structure MemStat where
  memtotal : Int
  memfree : Int
  memshared : Int
  buffers : Int
  cached : Int
  swapcached : Int
  active : Int
  inactive : Int
  hightotal : Int
  highfree : Int
  lowtotal : Int
  lowfree : Int
  swaptotal : Int
  swapfree : Int
  bigfree : Int
  deriving DecidableEq, Repr

/- `fp` is the name of the open file. `line` holds the places in `buf` that the last read
has set, so an index past them is an entry that is still zero; `buf` holds what was read
and the NUL behind it. -/
structure NmonProc where
  fp : Option String
  filename : String
  size : Nat
  lines : Nat
  line : List Nat
  buf : Bytes
  readThisInterval : Int

/- The static `fp` of `vmp_proc_net`: -1, the NULL of an fopen that failed, or the open file. -/
inductive NetFp where
  | unset | null | opened
  deriving DecidableEq, Repr

structure Statics where
  netFp : NetFp
  procCpuDone : Int
  intrLine : Nat
  ctxtLine : Nat
  btimeLine : Nat
  procLine : Nat
  runLine : Nat
  blockLine : Nat
  procCpuFirstTime : Bool
  stat8 : Nat
  stat10 : Nat
  oldCpus : Nat
  deriving DecidableEq, Repr

def Statics.initial : Statics where
  netFp := .unset
  procCpuDone := 0
  intrLine := 0
  ctxtLine := 0
  btimeLine := 0
  procLine := 0
  runLine := 0
  blockLine := 0
  procCpuFirstTime := true
  stat8 := 0
  stat10 := 0
  oldCpus := 1

def vmpNetmax : Nat := 32
def vmpCpumax : Nat := 192 * 8
def procMaxlines : Nat := 16 * 1024
def ifNameSize : Nat := 17 * 8

def stripSpaces (spaced : Bool) : Bytes → Bytes
  | [] => []
  | c :: rest =>
    let c := if c = 58 then 32 else c
    if c ≠ 32 then c :: stripSpaces false rest
    else if spaced then stripSpaces true rest
    else c :: stripSpaces true rest

/- The sixteen conversions on one line. The seventh and eighth number go to `junk`, and the
variables behind a conversion that fails keep their values. -/
def netLine (line : Bytes) (s : NetStat) : Run NetStat := match scanWord line with
  | none => .ok s
  | some (name,rest) =>
    if ifNameSize ≤ name.length then .error .outOfBounds
    else
      let numbers := sscanf unsignedLong 15 rest
      .ok {s with ifName := name,
                  ifIbytes := numbers.getD 0 s.ifIbytes, ifIpackets := numbers.getD 1 s.ifIpackets,
                  ifIerrs := numbers.getD 2 s.ifIerrs, ifIdrop := numbers.getD 3 s.ifIdrop,
                  ifIfifo := numbers.getD 4 s.ifIfifo, ifIframe := numbers.getD 5 s.ifIframe,
                  ifObytes := numbers.getD 8 s.ifObytes, ifOpackets := numbers.getD 9 s.ifOpackets,
                  ifOerrs := numbers.getD 10 s.ifOerrs, ifOdrop := numbers.getD 11 s.ifOdrop,
                  ifOfifo := numbers.getD 12 s.ifOfifo, ifOcolls := numbers.getD 13 s.ifOcolls,
                  ifOcarrier := numbers.getD 14 s.ifOcarrier}

def NetStat.zero : NetStat := ⟨[],0,0,0,0,0,0,0,0,0,0,0,0,0⟩

def netLines : Nat → Bytes → Run (List NetStat)
  | 0, _ => .ok []
  | room+1, input => match fgets 1024 input with
    | none => .ok []
    | some (buf,rest) => do
      let s ← netLine (stripSpaces true (cut buf).bytes) NetStat.zero
      let others ← netLines room rest
      .ok (s :: others)

/- `fp` is rewound at the end of each call, so a call reads from the start. After an fopen that
failed the next call reads from NULL. -/
def vmpProcNet {σ : Type} (files : Files) (g : Statics) (reread : Bool)
    (proc : σ → List NetStat → σ) (ctx : σ) : Run (Statics × σ × Nat) :=
  if g.netFp = .null then .error .nullDeref
  else if g.netFp = .unset ∧ files.opens "/proc/net/dev" = false then .ok ({g with netFp := .null},ctx,0)
  else
    let g := {g with netFp := if reread then .unset else .opened}
    match fgets 1024 (files.contents "/proc/net/dev") with
    | none => .ok (g,ctx,0)
    | some (_,rest) => match fgets 1024 rest with
      | none => .ok (g,ctx,0)
      | some (_,rest) => do
        let ifnets ← netLines vmpNetmax rest
        .ok (g,proc ctx ifnets,ifnets.length)

def procInit (proc : ProcFile → NmonProc) : ProcFile → NmonProc :=
  fun f => {proc f with filename := f.filename}

def fillBuffer (contents : Bytes) : Nat → Nat → Bytes → Nat × Bytes
  | 0, size, read => (size,read)
  | tries+1, size, _ =>
    let read := contents.take (size - 1)
    if read.length < size - 1 then (size,read) else fillBuffer contents tries (size + 512) read

def versionStep (state : Bytes × Bool) (i : Nat) : Bytes × Bool :=
  let (buf,found) := state
  let byte := fun j => buf.getD j 0
  if found = false ∧ byte i = 41 ∧ byte (i + 1) = 32 ∧ byte (i + 2) = 40 then (buf.set (i + 1) 10,true)
  else
    let buf := if byte i = 41 ∧ byte (i + 1) = 32 ∧ byte (i + 2) = 35 then buf.set (i + 1) 10 else buf
    (if byte i = 35 ∧ byte (i + 2) = 49 then buf.set i 10 else buf,found)

def versionLines (buf : Bytes) : Bytes := ((List.range buf.length).foldl versionStep (buf,false)).1

def splitLines (place lines : Nat) : Bytes → Bytes × List Nat
  | [] => ([],[])
  | c :: rest =>
    if c = 10 then
      if lines + 1 = procMaxlines - 1 then (0 :: rest,[place + 1])
      else let (others,starts) := splitLines (place + 1) (lines + 1) rest
        (0 :: others,(place + 1) :: starts)
    else let (others,starts) := splitLines (place + 1) lines rest
      ((if c = 9 then 32 else c) :: others,starts)

def procRead (files : Files) (g : Statics) (info : NmonProc) (num : ProcFile) (reread : Bool) :
    Statics × NmonProc :=
  if info.readThisInterval = 1 then (g,info)
  else if info.fp = none ∧ files.opens info.filename = false then (g,info)
  else
    let file := info.fp.getD info.filename
    let g := if num = .stat then {g with procCpuDone := 0} else g
    let (size,read) := fillBuffer (files.contents file) 4096 (if info.size = 0 then 512 else info.size) []
    let (text,starts) := splitLines 0 0 (if num = .version then versionLines read else read)
    (g,{info with fp := if reread then none else some file, size := size, lines := starts.length,
                  line := 0 :: starts, buf := text ++ [0], readThisInterval := 1})

def NmonProc.text (info : NmonProc) (i row : Nat) : Run Bytes := match info.line[i]? with
  | none => .error .nullDeref
  | some start =>
    if start + row < info.buf.length then .ok (cut (info.buf.drop (start + row))).bytes
    else .error .outOfBounds

def countCpus (info : NmonProc) : List Nat → Nat → Run Nat
  | [], cpus => .ok cpus
  | i :: rest, cpus => do
    let text ← info.text i 0
    if (ascii "cpu").isPrefixOf text then countCpus info rest i else .ok cpus

def getCpuCnt (files : Files) (g : Statics) (info : NmonProc) : Run (Statics × NmonProc × Nat) := do
  let (g,info) := procRead files g info .stat false
  let cpus ← countCpus info (List.range' 1 (info.lines - 1)) 0
  if vmpCpumax ≤ cpus then .error (.exit 44) else .ok (g,info,cpus)

def stored (values vars : List Int) : List Int := values ++ vars.drop values.length

def CpuStat.put (s : CpuStat) (vars : List Int) : CpuStat :=
  {s with user := vars.getD 0 0, nice := vars.getD 1 0, sys := vars.getD 2 0, idle := vars.getD 3 0,
          wait := vars.getD 4 0, irq := vars.getD 5 0, softirq := vars.getD 6 0, steal := vars.getD 7 0,
          guest := vars.getD 8 0, guestNice := vars.getD 9 0}

def Statics.conversions (g : Statics) : Nat :=
  if g.stat10 = 10 then 10 else if g.stat8 = 8 then 8 else 4

/- An EOF from these two scans counts as 0 here; both are only compared with 8 and 10. -/
def Statics.widths (g : Statics) (line : Bytes) : Statics :=
  if g.procCpuFirstTime then
    {g with stat8 := (sscanf longLong 8 line).length, stat10 := (sscanf longLong 10 line).length,
            procCpuFirstTime := false}
  else g

def cpuRow (i : Nat) : Nat :=
  if i + 1 > 1000 then 8 else if i + 1 > 100 then 7 else if i + 1 > 10 then 6 else 5

/- `guest` and `guest_nice` keep their values from one CPU to the next. -/
def cpuLine (g : Statics) (info : NmonProc) (state : List Int × (Nat → CpuStat)) (i : Nat) :
    Run (List Int × (Nat → CpuStat)) := do
  let (vars,cpuN) := state
  let text ← info.text (i + 1) (cpuRow i)
  let vars := stored (sscanf longLong g.conversions text) (List.replicate 8 0 ++ vars.drop 8)
  .ok (vars,Function.update cpuN i ((cpuN i).put vars))

def Statics.places (g : Statics) (info : NmonProc) (cpus : Nat) : Run Statics :=
  if g.intrLine ≠ 0 then .ok g
  else do
    let text ← info.text (cpus + 1) 0
    -- a 2.4 kernel has two more lines between the CPUs and the interrupts
    if (ascii "page").isPrefixOf text then
      .ok {g with intrLine := cpus + 3, ctxtLine := cpus + 5, btimeLine := cpus + 6,
                  procLine := cpus + 7, runLine := cpus + 8, blockLine := cpus + 9}
    else
      .ok {g with intrLine := cpus + 1, ctxtLine := cpus + 2, btimeLine := cpus + 3,
                  procLine := cpus + 4, runLine := cpus + 5, blockLine := cpus + 6}

def numberLine (info : NmonProc) (i : Nat) (label : String) : Run Int :=
  if i ≤ info.lines then do
    let text ← info.text i 0
    .ok ((sscanfAfter (ascii label) text).getD (-1))
  else .ok (-1)

def procCpu (g : Statics) (info : NmonProc) (cpus : Nat) (cpuTotal : CpuStat) (cpuN : Nat → CpuStat) :
    Run (Statics × CpuStat × (Nat → CpuStat)) :=
  if g.procCpuDone = 1 then .ok (g,cpuTotal,cpuN)
  else do
    let g := if g.oldCpus ≠ cpus then {g with intrLine := 0} else g
    let line ← info.text 0 5
    let g := g.widths line
    let vars := stored (sscanf longLong g.conversions line) (List.replicate 10 0)
    let (_,cpuN) ← (List.range cpus).foldlM (cpuLine g info) (vars,cpuN)
    let g ← g.places info cpus
    let intr ← numberLine info g.intrLine "intr"
    let ctxt ← numberLine info g.ctxtLine "ctxt"
    let procs ← numberLine info g.procLine "processes"
    let running ← numberLine info g.runLine "procs_running"
    let blocked ← numberLine info g.blockLine "procs_blocked"
    .ok ({g with oldCpus := cpus, procCpuDone := 1},
      {cpuTotal.put vars with intr := intr, ctxt := ctxt, procs := procs, running := running,
                              blocked := blocked},cpuN)

/- The macro of `vmp_nmon.c` on a signed char: false from '9' up to 127, digits below '9'
and negative chars included in what it accepts. -/
def isdigit (c : UInt8) : Bool := !(57 ≤ c && c < 128)

def searchLines (info : NmonProc) (s : Bytes) : List Nat → Run Int
  | [] => .ok (-1)
  | i :: rest => do
    let text ← info.text i 0
    if s.isPrefixOf text then .ok (atol ((text.drop s.length).dropWhile (fun c => !isdigit c)))
    else searchLines info s rest

def procMemSearch (info : NmonProc) (s : String) : Run Int :=
  searchLines info (ascii s) (List.range info.lines)

def vmpProcMem (files : Files) (g : Statics) (info : NmonProc) : Run (Statics × NmonProc × MemStat) := do
  let (g,info) := if info.readThisInterval = 0 then procRead files g info .meminfo false else (g,info)
  let memtotal ← procMemSearch info "MemTotal"
  let memfree ← procMemSearch info "MemFree"
  let memshared ← procMemSearch info "MemShared"
  let buffers ← procMemSearch info "Buffers"
  let cached ← procMemSearch info "Cached"
  let swapcached ← procMemSearch info "SwapCached"
  let active ← procMemSearch info "Active"
  let inactive ← procMemSearch info "Inactive"
  let hightotal ← procMemSearch info "HighTotal"
  let highfree ← procMemSearch info "HighFree"
  let lowtotal ← procMemSearch info "LowTotal"
  let lowfree ← procMemSearch info "LowFree"
  let swaptotal ← procMemSearch info "SwapTotal"
  let swapfree ← procMemSearch info "SwapFree"
  let bigfree ← procMemSearch info "BigFree"
  .ok (g,info,⟨memtotal,memfree,memshared,buffers,cached,swapcached,active,inactive,hightotal,
    highfree,lowtotal,lowfree,swaptotal,swapfree,bigfree⟩)

end VmpRl.Nmon
