import VmpRl.Base.Scan
import VmpRl.NmonLines

/-! `proc_read` on its memory: the block that grows with the file, the position in the
stream, and the table of lines with its fixed size, every access checked. -/
namespace VmpRl.ProcRead
open Octets CRuntime Nmon NmonLines ProcFiles Scan

/- `malloc` and `realloc`: the sizes they grant, at most PTRDIFF_MAX, and what new memory holds. -/
structure Memory where
  grants : Nat → Bool
  holds : Nat → UInt8
  bounded : ∀ n, grants n = true → n < 2 ^ 63

def Memory.fresh (memory : Memory) (n : Nat) : Bytes := (List.range n).map memory.holds

/- `proc_read` writes through a pointer that was not granted before it does anything else. -/
def Memory.malloc (memory : Memory) (n : Nat) : Run Bytes :=
  if memory.grants n then .ok (memory.fresh n) else .error .nullDeref

def Memory.realloc (memory : Memory) (block : Bytes) (n : Nat) : Run Bytes :=
  if memory.grants n then .ok ((block ++ memory.fresh (n - block.length)).take n) else .error .nullDeref

structure Stream where
  name : String
  pos : Nat

/- `line` has all its entries, as places in `buf`; `buf` is the whole block. -/
structure ProcInfo where
  fp : Option Stream
  filename : String
  size : Int
  lines : Nat
  line : List (Option Nat)
  buf : Option Bytes
  readThisInterval : Int

def ProcInfo.zero (filename : String) : ProcInfo :=
  ⟨none,filename,0,0,List.replicate procMaxlines none,none,0⟩

def pStat : Int := 1
def pVersion : Int := 2

def openRewound (files : Files) (info : ProcInfo) : Option Stream := match info.fp with
  | some stream => some {stream with pos := 0}
  | none => if files.opens info.filename then some ⟨info.filename,0⟩ else none

structure Reading where
  i : Nat
  got : Int
  size : Int
  buf : Bytes
  stream : Stream

def delivered (files : Files) (m : Reading) : Bytes :=
  ((files.contents m.stream.name).drop m.stream.pos).take (toSize (toInt (m.size - 1)))

def readRound (memory : Memory) (files : Files) (m : Reading) : Run (Round Reading Reading) :=
  if 4096 ≤ m.i then .ok (.over m)
  else
    let data := delivered files m
    if m.buf.length < data.length then .error .outOfBounds
    else
      let buf := data ++ m.buf.drop data.length
      let got := toInt data.length
      if got < toInt (m.size - 1) then
        .ok (.over {m with got := got, buf := buf, stream := ⟨m.stream.name,m.stream.pos + data.length⟩})
      else do
        let size := toInt (m.size + 512)
        let buf ← memory.realloc buf (toSize size)
        .ok (.again ⟨m.i + 1,got,size,buf,⟨m.stream.name,0⟩⟩)

def firstBlock (memory : Memory) (info : ProcInfo) : Run (Int × Bytes) :=
  if info.size = 0 then do
    let buf ← memory.malloc 512
    .ok (512,buf)
  else match info.buf with
    | none => .error .nullDeref
    | some buf => .ok (info.size,buf)

def readLoop (memory : Memory) (files : Files) (stream : Stream) (block : Int × Bytes) : Run Reading :=
  loop (readRound memory files) .endless 4097 ⟨0,0,block.1,block.2,stream⟩

def terminate (m : Reading) : Run Reading :=
  if m.got < 0 then .error .outOfBounds
  else do
    let buf ← store Stop.outOfBounds m.buf m.got.toNat 0
    .ok {m with buf := buf}

def procFill (memory : Memory) (files : Files) (info : ProcInfo) (stream : Stream) : Run Reading := do
  let block ← firstBlock memory info
  let m ← readLoop memory files stream block
  terminate m

def matchesAt (buf : Bytes) (i : Nat) : Bytes → Run Bool
  | [] => .ok true
  | c :: rest => do
    let b ← load Stop.outOfBounds buf i
    if b = c then matchesAt buf (i + 1) rest else .ok false

def storeIf (buf : Bytes) (i : Nat) (found : Bool) : Run Bytes :=
  if found then store Stop.outOfBounds buf i 10 else .ok buf

def numberSign (buf : Bytes) (i : Nat) : Run Bool := do
  let b ← load Stop.outOfBounds buf i
  if b = 35 then do
    let c ← load Stop.outOfBounds buf (i + 2)
    .ok (c = 49)
  else .ok false

def firstOpening (buf : Bytes) (i : Nat) (found : Bool) : Run Bool :=
  if found then .ok false else matchesAt buf i [41,32,40]

/- Places ") (" on two lines once, and ") #" and "#1" wherever else they are. -/
def weirdRound (state : Bytes × Bool) (i : Nat) : Run (Bytes × Bool) := do
  let (buf,found) := state
  let opening ← firstOpening buf i found
  if opening then do
    let buf ← store Stop.outOfBounds buf (i + 1) 10
    .ok (buf,true)
  else do
    let sign ← matchesAt buf i [41,32,35]
    let buf ← storeIf buf (i + 1) sign
    let one ← numberSign buf i
    let buf ← storeIf buf i one
    .ok (buf,found)

def weirdLines (size : Nat) (buf : Bytes) : Run Bytes := do
  let (buf,_) ← (List.range size).foldlM weirdRound (buf,false)
  .ok buf

structure Splitting where
  i : Nat
  lines : Nat
  line : List (Option Nat)
  buf : Bytes

def splitByte (m : Splitting) (c : UInt8) : Run Splitting :=
  if c = 9 then do
    let buf ← store Stop.outOfBounds m.buf m.i 32
    .ok {m with buf := buf}
  else if c = 10 then do
    let buf ← store Stop.outOfBounds m.buf m.i 0
    let line ← store Stop.outOfBounds m.line (m.lines + 1) (some (m.i + 1))
    .ok {m with lines := m.lines + 1, line := line, buf := buf}
  else .ok m

def splitRound (size : Nat) (m : Splitting) : Run (Round Splitting Splitting) :=
  if size ≤ m.i then .ok (.over m)
  else do
    let c ← load Stop.outOfBounds m.buf m.i
    let m ← splitByte m c
    if m.lines = procMaxlines - 1 then .ok (.over m) else .ok (.again {m with i := m.i + 1})

def procSplit (info : ProcInfo) (num : Int) (m : Reading) : Run Splitting := do
  let line ← store Stop.outOfBounds info.line 0 (some 0)
  let buf ← if num = pVersion then weirdLines m.got.toNat m.buf else .ok m.buf
  loop (splitRound m.got.toNat) .endless (m.got.toNat + 1) ⟨0,0,line,buf⟩

def procRead (memory : Memory) (files : Files) (cpuDone : Int) (info : ProcInfo) (num : Int) (reread : Bool) :
    Run (Int × ProcInfo) :=
  if info.readThisInterval = 1 then .ok (cpuDone,info)
  else match openRewound files info with
    | none => .ok (cpuDone,info)
    | some stream => do
      let filled ← procFill memory files info stream
      let split ← procSplit info num filled
      .ok (if num = pStat then 0 else cpuDone,
        {info with fp := if reread then none else some filled.stream, size := filled.size, lines := split.lines,
                   line := split.line, buf := some split.buf, readThisInterval := 1})

inductive Reached (filename : String) : ProcInfo → Prop where
  | zero : Reached filename (ProcInfo.zero filename)
  | read (memory : Memory) (files : Files) (cpuDone done : Int) (info next : ProcInfo) (num : Int) (reread : Bool)
      (before : Reached filename info) (ran : procRead memory files cpuDone info num reread = .ok (done,next)) :
      Reached filename next
  | due (info : ProcInfo) (flag : Int) (before : Reached filename info) :
      Reached filename {info with readThisInterval := flag}

theorem grantedSize (memory : Memory) {n : Nat} (small : n < 2 ^ 31)
    (granted : memory.grants (toSize (toInt (n + 512))) = true) :
    n + 512 < 2 ^ 31 ∧ toInt (n + 512) = n + 512 ∧ toSize (toInt (n + 512)) = n + 512 := by
  have bounded := memory.bounded _ granted
  have inside : n + 512 < 2 ^ 31 := by
    have wrapped : toInt ((n : Int) + 512) = ((n : Int) + 512).bmod (2 ^ 32) := rfl
    rw [Int.bmod_def] at wrapped
    unfold toSize at bounded
    omega
  have same : toInt ((n : Int) + 512) = n + 512 := toIntSmall (n := n + 512) inside
  refine ⟨inside,same,?_⟩
  rw [same]
  exact toSizeNat (n := n + 512) (by omega)

structure Block (name : String) (m : Reading) : Prop where
  large : 512 ≤ m.size
  small : m.size < 2 ^ 31
  whole : (m.buf.length : Int) = m.size
  named : m.stream.name = name

theorem readRoundEq (memory : Memory) (files : Files) {m : Reading} {name : String} (block : Block name m)
    (more : m.i < 4096) {data : Bytes}
    (read : data = ((files.contents name).drop m.stream.pos).take (m.buf.length - 1)) :
    delivered files m = data ∧ readRound memory files m =
      if data.length < m.buf.length - 1 then
        .ok (.over ⟨m.i,data.length,m.size,data ++ m.buf.drop data.length,⟨name,m.stream.pos + data.length⟩⟩)
      else (memory.realloc (data ++ m.buf.drop data.length) (toSize (toInt (m.buf.length + 512)))).bind
        (fun buf => .ok (.again ⟨m.i + 1,data.length,toInt (m.buf.length + 512),buf,⟨name,0⟩⟩)) := by
  obtain ⟨large,small,whole,named⟩ := block
  have less : toInt (m.size - 1) = ((m.buf.length - 1 : Nat) : Int) := by
    have exact : m.size - 1 = ((m.buf.length - 1 : Nat) : Int) := by omega
    rw [exact]
    exact toIntSmall (by omega)
  have brought : delivered files m = data := by
    unfold delivered
    rw [named, less, toSizeNat (by omega), read]
  have inside : data.length ≤ m.buf.length - 1 := by
    rw [read]
    exact List.length_take_le _ _
  have count : toInt (data.length : Int) = data.length := toIntSmall (by omega)
  refine ⟨brought,?_⟩
  unfold readRound
  rw [if_neg (by omega)]
  dsimp only
  rw [brought, if_neg (by omega), count, less, named, ← whole]
  by_cases short : data.length < m.buf.length - 1
  · rw [if_pos (by omega), if_pos short]
  · rw [if_neg (by omega), if_neg short]
    rfl

theorem reallocGranted {memory : Memory} {block buf : Bytes} {n : Nat} (ran : memory.realloc block n = .ok buf) :
    memory.grants n = true ∧ buf.length = n ∧ (block.length ≤ n → ∃ more, buf = block ++ more) := by
  unfold Memory.realloc at ran
  split at ran
  · rename_i granted
    cases Except.ok.inj ran
    refine ⟨granted,?_,?_⟩
    · simp only [List.length_take, List.length_append, Memory.fresh, List.length_map, List.length_range]
      omega
    · intro small
      rw [List.take_append, List.take_of_length_le small]
      exact ⟨_,rfl⟩
  · cases ran

theorem readRoundKeeps {memory : Memory} {files : Files} {name : String} {m : Reading} (block : Block name m) :
    (∀ t, readRound memory files m = .ok (.again t) → Block name t) ∧
    ∀ t, readRound memory files m = .ok (.over t) → Block name t := by
  obtain ⟨large,small,whole,named⟩ := id block
  by_cases more : m.i < 4096
  · obtain ⟨_,round⟩ := readRoundEq memory files block more rfl
    generalize taken : ((files.contents name).drop m.stream.pos).take (m.buf.length - 1) = data at round
    have inside : data.length ≤ m.buf.length - 1 := by
      rw [← taken]
      exact List.length_take_le _ _
    have same : (data ++ m.buf.drop data.length).length = m.buf.length := by
      rw [List.length_append, List.length_drop]
      omega
    rw [round]
    split
    · refine ⟨(fun t h => by cases h),?_⟩
      intro t h
      cases Except.ok.inj h
      exact ⟨large,small,by show ((data ++ m.buf.drop data.length).length : Int) = m.size; omega,rfl⟩
    · cases ran : memory.realloc (data ++ m.buf.drop data.length) (toSize (toInt (m.buf.length + 512))) with
      | error stop => exact ⟨(fun t h => by cases h),(fun t h => by cases h)⟩
      | ok buf =>
        obtain ⟨granted,size,_⟩ := reallocGranted ran
        obtain ⟨fits,int,nat⟩ := grantedSize memory (by omega) granted
        refine ⟨?_,(fun t h => by cases h)⟩
        intro t h
        cases Except.ok.inj h
        generalize toInt (m.buf.length + 512) = grown at size int nat
        refine ⟨?_,?_,?_,rfl⟩
        · show 512 ≤ grown
          omega
        · show grown < 2 ^ 31
          omega
        · show (buf.length : Int) = grown
          omega
  · have ends : readRound memory files m = .ok (.over m) := if_pos (by omega)
    rw [ends]
    refine ⟨(fun t h => by cases h),?_⟩
    intro t h
    cases Except.ok.inj h
    exact block

theorem bindOk {α β : Type} {run : Run α} {next : α → Run β} {value : β} (ran : run.bind next = .ok value) :
    ∃ a, run = .ok a ∧ next a = .ok value := by
  cases run with
  | error stop => cases ran
  | ok a => exact ⟨a,rfl,ran⟩

theorem storeIfLength {buf next : Bytes} {i : Nat} {found : Bool} (ran : storeIf buf i found = .ok next) :
    next.length = buf.length := by
  unfold storeIf at ran
  split at ran
  · exact storeLength ran
  · cases Except.ok.inj ran
    rfl

theorem weirdRoundLength {buf next : Bytes} {found flag : Bool} {i : Nat}
    (ran : weirdRound (buf,found) i = .ok (next,flag)) : next.length = buf.length := by
  obtain ⟨opening,_,ran⟩ := bindOk ran
  split at ran
  · obtain ⟨moved,stored,same⟩ := bindOk ran
    cases Except.ok.inj same
    exact storeLength stored
  · obtain ⟨sign,_,ran⟩ := bindOk ran
    obtain ⟨first,edited,ran⟩ := bindOk ran
    obtain ⟨one,_,ran⟩ := bindOk ran
    obtain ⟨second,again,same⟩ := bindOk ran
    cases Except.ok.inj same
    exact (storeIfLength again).trans (storeIfLength edited)

theorem weirdLength {size : Nat} {buf next : Bytes} (ran : weirdLines size buf = .ok next) :
    next.length = buf.length := by
  have rounds : ∀ (places : List Nat) (buf : Bytes) (found : Bool) (last : Bytes × Bool),
      places.foldlM weirdRound (buf,found) = .ok last → last.1.length = buf.length := by
    intro places
    induction places with
    | nil =>
      intro buf found last went
      cases Except.ok.inj went
      rfl
    | cons i rest ih =>
      intro buf found last went
      obtain ⟨⟨moved,flag⟩,round,later⟩ := bindOk went
      exact (ih moved flag last later).trans (weirdRoundLength round)
  obtain ⟨last,went,same⟩ := bindOk ran
  cases Except.ok.inj same
  exact rounds _ buf false last went

structure Held (filename : String) (info : ProcInfo) : Prop where
  named : info.filename = filename
  stream : ∀ stream, info.fp = some stream → stream.name = filename
  table : info.line.length = procMaxlines
  block : info.size = 0 ∨ ∃ buf, info.buf = some buf ∧ 512 ≤ info.size ∧ info.size < 2 ^ 31 ∧ buf.length = info.size

theorem splitByteKeeps {m t : Splitting} {c : UInt8} (ran : splitByte m c = .ok t) :
    t.line.length = m.line.length ∧ t.buf.length = m.buf.length := by
  unfold splitByte at ran
  split at ran
  · obtain ⟨buf,stored,same⟩ := bindOk ran
    cases Except.ok.inj same
    exact ⟨rfl,storeLength stored⟩
  · split at ran
    · obtain ⟨buf,stored,ran⟩ := bindOk ran
      obtain ⟨line,entered,same⟩ := bindOk ran
      cases Except.ok.inj same
      exact ⟨storeLength entered,storeLength stored⟩
    · cases Except.ok.inj ran
      exact ⟨rfl,rfl⟩

theorem splitRoundKeeps {size : Nat} {m t : Splitting}
    (ran : splitRound size m = .ok (.again t) ∨ splitRound size m = .ok (.over t)) :
    t.line.length = m.line.length ∧ t.buf.length = m.buf.length := by
  unfold splitRound at ran
  split at ran
  · rcases ran with h | h
    · cases h
    · cases Except.ok.inj h
      exact ⟨rfl,rfl⟩
  · rcases ran with h | h
    · obtain ⟨c,_,h⟩ := bindOk h
      obtain ⟨next,byte,h⟩ := bindOk h
      split at h
      · cases h
      · have kept := splitByteKeeps byte
        cases Except.ok.inj h
        exact kept
    · obtain ⟨c,_,h⟩ := bindOk h
      obtain ⟨next,byte,h⟩ := bindOk h
      split at h
      · cases Except.ok.inj h
        exact splitByteKeeps byte
      · cases h

theorem splitKeeps {info : ProcInfo} {num : Int} {m : Reading} {t : Splitting} (ran : procSplit info num m = .ok t) :
    t.line.length = info.line.length ∧ t.buf.length = m.buf.length := by
  have splits : ∀ {line : List (Option Nat)} {buf : Bytes},
      loop (splitRound m.got.toNat) .endless (m.got.toNat + 1) ⟨0,0,line,buf⟩ = .ok t →
      t.line.length = line.length ∧ t.buf.length = buf.length := by
    intro line buf ran
    let Same : Splitting → Prop := fun s => s.line.length = line.length ∧ s.buf.length = buf.length
    refine loopKept (I := Same) (Q := Same) ?_ ?_ ⟨rfl,rfl⟩ ran
    · intro s t kept went
      obtain ⟨table,block⟩ := splitRoundKeeps (.inl went)
      exact ⟨table.trans kept.1,block.trans kept.2⟩
    · intro s t kept went
      obtain ⟨table,block⟩ := splitRoundKeeps (.inr went)
      exact ⟨table.trans kept.1,block.trans kept.2⟩
  obtain ⟨line,entered,ran⟩ := bindOk ran
  have table := storeLength entered
  split at ran
  · obtain ⟨buf,weird,ran⟩ := bindOk ran
    obtain ⟨kept,block⟩ := splits ran
    exact ⟨kept.trans table,block.trans (weirdLength weird)⟩
  · obtain ⟨kept,block⟩ := splits ran
    exact ⟨kept.trans table,block⟩

theorem firstBlockHeld {memory : Memory} {filename : String} {info : ProcInfo} (held : Held filename info)
    {stream : Stream} (named : stream.name = filename) {size : Int} {buf : Bytes}
    (ran : firstBlock memory info = .ok (size,buf)) : Block filename ⟨0,0,size,buf,stream⟩ := by
  unfold firstBlock at ran
  rcases held.block with zero | there
  · rw [if_pos zero] at ran
    obtain ⟨block,granted,same⟩ := bindOk ran
    cases Except.ok.inj same
    unfold Memory.malloc at granted
    split at granted
    · cases Except.ok.inj granted
      exact ⟨Int.le_refl 512,show (512 : Int) < 2 ^ 31 by decide,by simp [Memory.fresh],named⟩
    · cases granted
  · obtain ⟨block,some,large,small,whole⟩ := there
    rw [if_neg (by omega), some] at ran
    cases Except.ok.inj ran
    exact ⟨large,small,whole,named⟩

theorem fillHeld {memory : Memory} {files : Files} {filename : String} {info : ProcInfo} (held : Held filename info)
    {stream : Stream} (named : stream.name = filename) {m : Reading}
    (ran : procFill memory files info stream = .ok m) : Block filename m := by
  obtain ⟨⟨size,buf⟩,first,ran⟩ := bindOk ran
  obtain ⟨last,read,ran⟩ := bindOk ran
  have kept : Block filename last := loopKept (I := Block filename)
    (fun s t block went => (readRoundKeeps block).1 t went) (fun s t block went => (readRoundKeeps block).2 t went)
    (firstBlockHeld held named first) read
  unfold terminate at ran
  split at ran
  · cases ran
  · obtain ⟨block,stored,same⟩ := bindOk ran
    cases Except.ok.inj same
    have size := storeLength stored
    exact ⟨kept.large,kept.small,by rw [← kept.whole, ← size],kept.named⟩

theorem openedNamed {files : Files} {filename : String} {info : ProcInfo} (held : Held filename info) {stream : Stream}
    (opened : openRewound files info = some stream) : stream.name = filename ∧ stream.pos = 0 := by
  unfold openRewound at opened
  split at opened
  · rename_i before there
    cases Option.some.inj opened
    exact ⟨held.stream before there,rfl⟩
  · split at opened
    · cases Option.some.inj opened
      exact ⟨held.named,rfl⟩
    · cases opened

theorem readHeld {memory : Memory} {files : Files} {filename : String} {info next : ProcInfo} {num cpuDone done : Int}
    {reread : Bool} (held : Held filename info)
    (ran : procRead memory files cpuDone info num reread = .ok (done,next)) : Held filename next := by
  unfold procRead at ran
  split at ran
  · cases Except.ok.inj ran
    exact held
  · split at ran
    · cases Except.ok.inj ran
      exact held
    · rename_i stream opened
      obtain ⟨filled,read,ran⟩ := bindOk ran
      obtain ⟨split,parted,same⟩ := bindOk ran
      cases Except.ok.inj same
      have block := fillHeld held (openedNamed held opened).1 read
      obtain ⟨table,size⟩ := splitKeeps parted
      refine ⟨held.named,?_,table.trans held.table,.inr ⟨split.buf,rfl,block.large,block.small,?_⟩⟩
      · intro stream there
        split at there
        · cases there
        · cases Option.some.inj there
          exact block.named
      · rw [size]
        exact block.whole

theorem reachedHeld {filename : String} {info : ProcInfo} (reached : Reached filename info) : Held filename info := by
  induction reached with
  | zero => exact ⟨rfl,(fun stream there => by cases there),List.length_replicate,.inl rfl⟩
  | read memory files cpuDone done info next num reread before ran ih => exact readHeld ih ran
  | due info flag before ih => exact ⟨ih.named,ih.stream,ih.table,ih.block⟩

end VmpRl.ProcRead
