import VmpRl.Base.Text

/-! The layout in which the kernel writes `/proc/net/dev`, `/proc/stat` and `/proc/meminfo`.
A value of these types is a content of the file together with the facts of the layout. -/
namespace VmpRl.ProcFiles
open Octets Text

structure Columns (count limit : Nat) where
  cells : List (Nat × Nat)
  counted : cells.length = count
  spaced : Spaced cells
  bounded : ∀ cell ∈ cells, cell.2 < limit

def Columns.nth {count limit : Nat} (row : Columns count limit) (i : Nat) : Nat :=
  (row.cells.map Prod.snd).getD i 0

theorem sscanfColumns {α : Type} {convert : Int → α} (embed : Nat → α) {count limit : Nat}
    (row : Columns count limit) (exact : ∀ n : Nat, n < limit → convert n = embed n) {k : Nat}
    (enough : k ≤ count) {rest : Bytes} (stops : Stops rest) :
    sscanf convert k (cells row.cells ++ rest) = (row.cells.take k).map (fun cell => embed cell.2) := by
  rw [sscanfCells convert row.spaced stops (by rw [row.counted]; exact enough)]
  apply List.map_congr_left
  intro cell member
  exact exact _ (row.bounded cell (List.mem_of_mem_take member))

def unlines (lines : List Bytes) : Bytes := lines.flatMap (fun line => line ++ [10])

structure Header where
  text : Bytes
  whole : 10 ∉ text
  short : text.length < 1023

/- The numbers are bytes, packets, errs, drop, fifo, frame, compressed and multicast
received, then bytes, packets, errs, drop, fifo, colls, carrier and compressed sent. -/
structure Interface where
  indent : Nat
  name : Bytes
  counters : Columns 16 (2 ^ 64)
  named : name ≠ []
  nameShort : name.length < 16
  namePlain : ∀ c ∈ name, isSpace c = false ∧ c ≠ 58 ∧ c ≠ 0
  short : (blanks indent ++ (name ++ 58 :: cells counters.cells)).length < 1023

def Interface.text (row : Interface) : Bytes :=
  blanks row.indent ++ (row.name ++ 58 :: cells row.counters.cells)

structure NetDev where
  first : Header
  second : Header
  interfaces : List Interface
  few : interfaces.length ≤ 32

def NetDev.text (file : NetDev) : Bytes :=
  unlines ([file.first.text,file.second.text] ++ file.interfaces.map Interface.text)

/- The ten numbers of a CPU since Linux 2.6.33: user, nice, system, idle, iowait, irq,
softirq, steal, guest and guest_nice. -/
abbrev CpuTimes := Columns 10 (2 ^ 63)

def cpuText (label : Bytes) (row : CpuTimes) : Bytes := ascii "cpu" ++ label ++ 32 :: cells row.cells

def numberText (label : String) (n : Nat) (rest : Bytes) : Bytes :=
  ascii label ++ (blanks 1 ++ (decimal n ++ rest))

/- `irqs` is the text of the interrupt line behind its sum. -/
structure StatCounts where
  total : CpuTimes
  cpus : List CpuTimes
  intr : Nat
  irqs : Bytes
  ctxt : Nat
  btime : Nat
  processes : Nat
  procsRunning : Nat
  procsBlocked : Nat

def StatCounts.lines (s : StatCounts) : List Bytes :=
  cpuText [32] s.total :: (s.cpus.mapIdx (fun i row => cpuText (decimal i) row) ++
    [numberText "intr" s.intr s.irqs,numberText "ctxt" s.ctxt [],numberText "btime" s.btime [],
     numberText "processes" s.processes [],numberText "procs_running" s.procsRunning [],
     numberText "procs_blocked" s.procsBlocked []])

def Clean (line : Bytes) : Prop := 10 ∉ line ∧ 9 ∉ line ∧ 0 ∉ line
instance (line : Bytes) : Decidable (Clean line) := by unfold Clean; infer_instance

structure StatFile extends StatCounts where
  rest : Bytes
  fewCpus : cpus.length < 1536
  bounded : ∀ n ∈ [intr,ctxt,btime,processes,procsRunning,procsBlocked], n < 2 ^ 63
  irqsClean : Clean irqs
  irqsApart : Stops irqs
  small : (unlines toStatCounts.lines ++ rest).length < 2 ^ 21

def StatFile.text (file : StatFile) : Bytes := unlines file.lines ++ file.rest

structure MemRow where
  key : Bytes
  gap : Nat
  value : Nat
  unit : Bytes
  spaced : 1 ≤ gap
  apart : Stops unit
  bounded : value < 2 ^ 63

def MemRow.text (row : MemRow) : Bytes :=
  row.key ++ (58 :: (blanks row.gap ++ (decimal row.value ++ row.unit)))

def keyed (key : String) (row : MemRow) : Bool := (ascii key).isPrefixOf row.key

structure MemFile where
  rows : List MemRow
  total : MemRow
  free : MemRow
  clean : ∀ row ∈ rows, Clean row.text
  totalKey : total.key = ascii "MemTotal"
  freeKey : free.key = ascii "MemFree"
  oneTotal : rows.filter (keyed "MemTotal") = [total]
  oneFree : rows.filter (keyed "MemFree") = [free]
  few : rows.length < 16 * 1024
  small : (unlines (rows.map MemRow.text)).length < 2 ^ 21

def MemFile.text (file : MemFile) : Bytes := unlines (file.rows.map MemRow.text)

end VmpRl.ProcFiles
