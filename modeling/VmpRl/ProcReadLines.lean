import VmpRl.ProcRead

/-! A call of `proc_read` whose memory is granted: it ends, having read the file in one pass
and made its lines the entries of the table, inside the block and the table. -/
namespace VmpRl.ProcReadLines
open Octets CRuntime Nmon NmonLines ProcFiles Scan ProcRead

def firstSize (size : Int) : Nat := if size = 0 then 512 else size.toNat

def mostRead (size : Int) : Nat := firstSize size + 512 * 4095 - 1

def Asked (size : Int) (length n : Nat) : Prop :=
  (size = 0 ∧ n = 512) ∨
  ∃ j < 4096, firstSize size + 512 * j - 1 ≤ length ∧ n = toSize (toInt (firstSize size + 512 * (j + 1) : Nat))

def Filled (text : Bytes) (m : Reading) : Prop :=
  m.got = text.length ∧ ∃ c rest, m.buf = text ++ c :: rest

/- `text` came with one read, from the start of the file; it was the last read before `m`. -/
def OnePass (memory : Memory) (files : Files) (start : Reading) (text : Bytes) (m : Reading) : Prop :=
  ∃ before, Visits (readRound memory files) start before ∧ before.i < 4096 ∧ before.stream.pos = 0 ∧
    delivered files before = text ∧
    (readRound memory files before = .ok (.again m) ∨ readRound memory files before = .ok (.over m))

section Reads
variable {memory : Memory} {files : Files} {name : String} {start : Reading} {first : Nat}

structure Growing (memory : Memory) (files : Files) (name : String) (start : Reading) (first : Nat)
    (m : Reading) : Prop where
  block : Block name m
  size : m.buf.length = first + 512 * m.i
  fromStart : m.stream.pos = 0
  bounded : m.i ≤ 4096
  visited : Visits (readRound memory files) start m
  pure : ∀ read, (fillBuffer (files.contents name) (4096 - m.i) m.buf.length read).1 =
    (fillBuffer (files.contents name) 4096 first []).1
  full : 0 < m.i → first + 512 * (m.i - 1) - 1 ≤ (files.contents name).length ∧
    Filled ((files.contents name).take (first + 512 * (m.i - 1) - 1)) m ∧
    OnePass memory files start ((files.contents name).take (first + 512 * (m.i - 1) - 1)) m

def ReadWhole (memory : Memory) (files : Files) (name : String) (start : Reading) (first : Nat) (m : Reading) : Prop :=
  Block name m ∧ m.buf.length = (fillBuffer (files.contents name) 4096 first []).1 ∧
    Filled ((files.contents name).take (first + 512 * 4095 - 1)) m ∧
    OnePass memory files start ((files.contents name).take (first + 512 * 4095 - 1)) m

theorem fillBufferAny (contents : Bytes) (tries size : Nat) (read other : Bytes) :
    (fillBuffer contents tries size read).1 = (fillBuffer contents tries size other).1 := by
  cases tries with
  | zero => rfl
  | succ tries => rfl

theorem Growing.ends {m : Reading} (h : Growing memory files name start first m) (large : 512 ≤ first)
    (more : m.i < 4096) (short : (files.contents name).length < first + 512 * m.i - 1) :
    ∃ n, readRound memory files m = .ok (.over n) ∧ ReadWhole memory files name start first n := by
  have pure := h.pure []
  have fuel : 4096 - m.i = 4096 - (m.i + 1) + 1 := by omega
  obtain ⟨brought,round⟩ := readRoundEq memory files h.block more rfl
  have all : (files.contents name).take (first + 512 * m.i - 1) = files.contents name :=
    List.take_of_length_le (by omega)
  have whole : (files.contents name).take (first + 512 * 4095 - 1) = files.contents name :=
    List.take_of_length_le (by omega)
  rw [h.fromStart, List.drop_zero, h.size, all] at brought round
  rw [if_pos short] at round
  have left : m.buf.drop (files.contents name).length ≠ [] := by
    intro empty
    have := List.drop_eq_nil_iff.mp empty
    have := h.size
    omega
  obtain ⟨c,rest,behind⟩ := List.exists_cons_of_ne_nil left
  refine ⟨_,round,(readRoundKeeps h.block).2 _ round,?_,?_,?_⟩
  · rw [fuel, fillBuffer, h.size, all, if_pos short] at pure
    rw [← pure]
    show ((files.contents name) ++ m.buf.drop (files.contents name).length).length = first + 512 * m.i
    rw [List.length_append, List.length_drop, h.size]
    omega
  · rw [whole]
    exact ⟨rfl,c,rest,congrArg _ behind⟩
  · rw [whole]
    exact ⟨m,h.visited,more,h.fromStart,brought,.inr round⟩

theorem Growing.grows {m : Reading} (h : Growing memory files name start first m) (large : 512 ≤ first)
    (more : m.i < 4096) (fills : first + 512 * m.i - 1 ≤ (files.contents name).length)
    (grant : memory.grants (toSize (toInt (first + 512 * (m.i + 1) : Nat))) = true) :
    ∃ n, readRound memory files m = .ok (.again n) ∧ Growing memory files name start first n ∧ n.i = m.i + 1 := by
  have fuel : 4096 - m.i = 4096 - (m.i + 1) + 1 := by omega
  obtain ⟨brought,round⟩ := readRoundEq memory files h.block more rfl
  have count : ((files.contents name).take (first + 512 * m.i - 1)).length = first + 512 * m.i - 1 :=
    List.length_take_of_le fills
  have small := h.block.small
  rw [← h.block.whole, h.size] at small
  have asked : ((first + 512 * (m.i + 1) : Nat) : Int) = ((first + 512 * m.i : Nat) : Int) + 512 := by omega
  rw [asked] at grant
  obtain ⟨_,_,nat⟩ := grantedSize memory (by omega) grant
  rw [h.fromStart, List.drop_zero, h.size] at brought round
  rw [count, if_neg (Nat.lt_irrefl _)] at round
  obtain ⟨c,behind⟩ := List.length_eq_one_iff.mp (show (m.buf.drop (first + 512 * m.i - 1)).length = 1 by
    rw [List.length_drop, h.size]
    omega)
  generalize text : (files.contents name).take (first + 512 * m.i - 1) = data at round brought count
  generalize toInt ((first + 512 * m.i : Nat) + 512) = grown at round grant nat
  obtain ⟨buf,ran⟩ : ∃ buf, memory.realloc (data ++ m.buf.drop (first + 512 * m.i - 1)) (toSize grown) = .ok buf :=
    ⟨_,if_pos grant⟩
  rw [ran] at round
  obtain ⟨_,size,keeps⟩ := reallocGranted ran
  obtain ⟨rest,shape⟩ := keeps (by rw [List.length_append, behind, count, nat, List.length_singleton]; omega)
  rw [behind, List.append_assoc] at shape
  refine ⟨_,round,⟨(readRoundKeeps h.block).1 _ round,?_,rfl,more,.later m _ h.visited round,?_,?_⟩,rfl⟩
  · show buf.length = first + 512 * (m.i + 1)
    omega
  · intro read
    have next := h.pure read
    rw [fuel, fillBuffer, h.size, text, if_neg (by omega)] at next
    rw [← next]
    show (fillBuffer _ (4096 - (m.i + 1)) buf.length read).1 = _
    rw [size, nat]
    exact fillBufferAny _ _ _ _ _
  · intro _
    show first + 512 * (m.i + 1 - 1) - 1 ≤ _ ∧ _
    rw [Nat.add_sub_cancel, text]
    exact ⟨by omega,⟨by rw [count],c,rest,shape⟩,m,h.visited,more,h.fromStart,brought,.inl round⟩

theorem Growing.last {m : Reading} (h : Growing memory files name start first m) (ended : ¬ m.i < 4096) :
    ReadWhole memory files name start first m := by
  have pure := h.pure []
  obtain ⟨_,filled,once⟩ := h.full (by omega)
  have last : m.i = 4096 := Nat.le_antisymm h.bounded (by omega)
  rw [last] at filled once pure
  exact ⟨h.block,pure,filled,once⟩

theorem growingAdvances (large : 512 ≤ first)
    (granted : ∀ j < 4096, first + 512 * j - 1 ≤ (files.contents name).length →
      memory.grants (toSize (toInt (first + 512 * (j + 1) : Nat))) = true) :
    Advances (Growing memory files name start first) (ReadWhole memory files name start first)
      (fun m => 4096 - m.i) (readRound memory files) := by
  intro m h
  by_cases more : m.i < 4096
  · by_cases short : (files.contents name).length < first + 512 * m.i - 1
    · exact .inr (h.ends large more short)
    · have fills := Nat.le_of_not_lt short
      obtain ⟨n,round,growing,next⟩ := h.grows large more fills (granted m.i more fills)
      exact .inl ⟨n,round,growing,show 4096 - n.i < 4096 - m.i by omega⟩
  · exact .inr ⟨m,if_pos (by omega),h.last more⟩

end Reads

section Splits
variable {text rest : Bytes}

structure Splits (text rest : Bytes) (m : Splitting) (done unread : Bytes) (shown others : List (Option Nat)) : Prop where
  buf : m.buf = done ++ (unread ++ 0 :: rest)
  place : done.length = m.i
  ahead : m.i + unread.length = text.length
  line : m.line = shown ++ others
  count : shown.length = m.lines + 1
  table : m.line.length = procMaxlines
  room : m.lines < procMaxlines - 1
  parted : done ++ (splitLines m.i m.lines unread).1 = (splitLines 0 0 text).1
  entries : shown ++ (splitLines m.i m.lines unread).2.map some = (0 :: (splitLines 0 0 text).2).map some

def Midway (text rest : Bytes) (m : Splitting) : Prop :=
  ∃ done unread shown others, Splits text rest m done unread shown others

def Split (text rest : Bytes) (m : Splitting) : Prop :=
  m.buf = (splitLines 0 0 text).1 ++ 0 :: rest ∧ m.lines = (splitLines 0 0 text).2.length ∧
    ∃ others, m.line = (0 :: (splitLines 0 0 text).2).map some ++ others

theorem splitOver {m : Splitting} {done : Bytes} {shown others : List (Option Nat)}
    (h : Splits text rest m done [] shown others) :
    splitRound text.length m = .ok (.over m) ∧ Split text rest m := by
  have ahead := h.ahead
  have parted := h.parted
  have entries := h.entries
  rw [List.length_nil] at ahead
  simp only [splitLines, List.append_nil, List.map_nil] at parted entries
  have size := congrArg List.length entries
  rw [List.length_map, List.length_cons, h.count] at size
  exact ⟨if_pos (by omega),by rw [h.buf, parted]; rfl,by omega,others,by rw [h.line, entries]⟩

section OneByte
variable {m : Splitting} {done unread : Bytes} {c : UInt8} {shown others : List (Option Nat)}

theorem splitTakes (h : Splits text rest m done (c :: unread) shown others) {next : Splitting}
    (ran : splitByte m c = .ok next) : splitRound text.length m =
      if next.lines = procMaxlines - 1 then .ok (.over next) else .ok (.again {next with i := next.i + 1}) := by
  have ahead := h.ahead
  have read : load Stop.outOfBounds m.buf m.i = .ok c := by
    rw [h.buf]
    exact loadAt _ h.place.symm c _
  rw [List.length_cons] at ahead
  unfold splitRound
  rw [if_neg (by omega), read]
  simp only [bind, Except.bind, ran]

theorem splitWrites (h : Splits text rest m done (c :: unread) shown others) (d : UInt8) :
    store Stop.outOfBounds m.buf m.i d = .ok ((done ++ [d]) ++ (unread ++ 0 :: rest)) := by
  rw [h.buf, List.cons_append, storeAt _ h.place.symm, List.append_assoc]
  rfl

theorem splitNext (h : Splits text rest m done (c :: unread) shown others) (d : UInt8) :
    (done ++ [d]).length = m.i + 1 ∧ m.i + 1 + unread.length = text.length := by
  have ahead := h.ahead
  rw [List.length_cons] at ahead
  exact ⟨by rw [List.length_append, List.length_singleton, h.place],by omega⟩

theorem splitNewline (h : Splits text rest m done (10 :: unread) shown others) :
    (∃ t, splitRound text.length m = .ok (.again t) ∧ t.i = m.i + 1 ∧ Midway text rest t) ∨
    ∃ t, splitRound text.length m = .ok (.over t) ∧ Split text rest t := by
  have table := h.table
  have room := h.room
  have parted := h.parted
  have entries := h.entries
  have left : others ≠ [] := by
    intro none
    rw [h.line, none, List.append_nil, h.count] at table
    omega
  obtain ⟨old,others,rfl⟩ := List.exists_cons_of_ne_nil left
  have entered : store Stop.outOfBounds m.line (m.lines + 1) (some (m.i + 1)) =
      .ok ((shown ++ [some (m.i + 1)]) ++ others) := by
    rw [h.line, storeAt _ h.count.symm, List.append_assoc]
    rfl
  have ran : splitByte m 10 = .ok ⟨m.i,m.lines + 1,(shown ++ [some (m.i + 1)]) ++ others,
      (done ++ [0]) ++ (unread ++ 0 :: rest)⟩ := by
    unfold splitByte
    rw [if_neg (by decide), if_pos rfl, splitWrites h, entered]
    rfl
  have round := splitTakes h ran
  have count : (shown ++ [some (m.i + 1)]).length = m.lines + 1 + 1 := by
    rw [List.length_append, List.length_singleton, h.count]
  by_cases full : m.lines + 1 = procMaxlines - 1
  · rw [if_pos full] at round
    rw [splitLines, if_pos rfl, if_pos full] at parted entries
    have size := congrArg List.length entries
    simp only [List.length_append, List.length_map, List.length_cons, List.length_nil, h.count] at size
    refine .inr ⟨_,round,?_,?_,others,?_⟩
    · rw [← parted]
      simp
    · show m.lines + 1 = _
      omega
    · rw [← entries]
      rfl
  · rw [if_neg full] at round
    rw [splitLines, if_pos rfl, if_neg full] at parted entries
    obtain ⟨place,ahead⟩ := splitNext h 0
    have more : m.lines + 1 < procMaxlines - 1 := by omega
    refine .inl ⟨_,round,rfl,done ++ [0],unread,shown ++ [some (m.i + 1)],others,rfl,place,ahead,rfl,count,
      (storeLength entered).trans table,more,?_,?_⟩
    · rw [← parted]
      simp
    · rw [← entries]
      simp

theorem splitOther (h : Splits text rest m done (c :: unread) shown others) (other : c ≠ 10) :
    ∃ t, splitRound text.length m = .ok (.again t) ∧ t.i = m.i + 1 ∧ Midway text rest t := by
  have parted := h.parted
  have entries := h.entries
  have ran : splitByte m c =
      .ok ⟨m.i,m.lines,m.line,(done ++ [if c = 9 then 32 else c]) ++ (unread ++ 0 :: rest)⟩ := by
    unfold splitByte
    by_cases tab : c = 9
    · rw [if_pos tab, if_pos tab, splitWrites h]
      rfl
    · rw [if_neg tab, if_neg other, if_neg tab, List.append_assoc]
      show Except.ok (⟨m.i,m.lines,m.line,m.buf⟩ : Splitting) = _
      rw [h.buf]
      rfl
  have room := h.room
  have on : m.lines ≠ procMaxlines - 1 := by omega
  have round := splitTakes h ran
  rw [if_neg on] at round
  rw [splitLines, if_neg other] at parted entries
  obtain ⟨place,ahead⟩ := splitNext h (if c = 9 then 32 else c)
  refine ⟨_,round,rfl,done ++ [if c = 9 then 32 else c],unread,shown,others,rfl,place,ahead,h.line,h.count,h.table,
    room,?_,entries⟩
  rw [← parted]
  simp

end OneByte

theorem splitAdvances : Advances (Midway text rest) (Split text rest) (fun m => text.length - m.i)
    (splitRound text.length) := by
  intro m h
  obtain ⟨done,unread,shown,others,h⟩ := h
  cases unread with
  | nil => exact .inr ⟨m,splitOver h⟩
  | cons c unread =>
    have ahead := h.ahead
    rw [List.length_cons] at ahead
    have lower {t : Splitting} (next : t.i = m.i + 1) : text.length - t.i < text.length - m.i := by omega
    by_cases newline : c = 10
    · subst newline
      rcases splitNewline h with on | full
      · obtain ⟨t,round,next,kept⟩ := on
        exact .inl ⟨t,round,kept,lower next⟩
      · exact .inr full
    · obtain ⟨t,round,next,kept⟩ := splitOther h newline
      exact .inl ⟨t,round,kept,lower next⟩

end Splits

section Call
variable {memory : Memory} {files : Files} {filename : String} {info : ProcInfo}

def Granted (memory : Memory) (files : Files) (filename : String) (info : ProcInfo) : Prop :=
  ∀ n, Asked info.size (files.contents filename).length n → memory.grants n = true

def startOf (block : Int × Bytes) (stream : Stream) : Reading := ⟨0,0,block.1,block.2,stream⟩

theorem firstGranted (held : Held filename info) (granted : Granted memory files filename info) :
    ∃ block, firstBlock memory info = .ok block ∧ block.2.length = firstSize info.size ∧ 512 ≤ firstSize info.size := by
  unfold firstBlock firstSize
  rcases held.block with zero | there
  · have grant := granted 512 (.inl ⟨zero,rfl⟩)
    rw [if_pos zero, if_pos zero]
    refine ⟨(512,memory.fresh 512),?_,by simp [Memory.fresh],Nat.le_refl 512⟩
    unfold Memory.malloc
    rw [if_pos grant]
    rfl
  · obtain ⟨buf,some,large,small,whole⟩ := there
    rw [if_neg (by omega), if_neg (by omega), some]
    exact ⟨_,rfl,by show buf.length = info.size.toNat; omega,by omega⟩

structure FileRead (memory : Memory) (files : Files) (info : ProcInfo) (stream : Stream) (text rest : Bytes)
    (filled : Reading) : Prop where
  ran : procFill memory files info stream = .ok filled
  buf : filled.buf = text ++ 0 :: rest
  got : filled.got = text.length
  size : (filled.buf.length : Int) = filled.size
  once : ∃ block last, firstBlock memory info = .ok block ∧ OnePass memory files (startOf block stream) text last ∧
    terminate last = .ok filled

theorem fillReads (held : Held filename info) (granted : Granted memory files filename info) {stream : Stream}
    (named : stream.name = filename) (atStart : stream.pos = 0) :
    ∃ rest filled, FileRead memory files info stream ((files.contents filename).take (mostRead info.size)) rest filled ∧
      filled.stream.name = filename ∧
      filled.size = (fillBuffer (files.contents filename) 4096 (firstSize info.size) []).1 := by
  obtain ⟨block,started,length,large⟩ := firstGranted held granted
  have base : Growing memory files filename (startOf block stream) (firstSize info.size) (startOf block stream) :=
    { block := firstBlockHeld held named started
      size := length
      fromStart := atStart
      bounded := Nat.zero_le _
      visited := .first
      pure := by
        intro read
        show (fillBuffer _ (4096 - 0) block.2.length read).1 = _
        rw [length]
        exact fillBufferAny _ _ _ _ _
      full := fun none => absurd none (Nat.not_lt_zero 0) }
  have grants : ∀ j < 4096, firstSize info.size + 512 * j - 1 ≤ (files.contents filename).length →
      memory.grants (toSize (toInt (firstSize info.size + 512 * (j + 1) : Nat))) = true :=
    fun j few full => granted _ (.inr ⟨j,few,full,rfl⟩)
  obtain ⟨last,read,holds,grown,⟨got,c,rest,shape⟩,once⟩ :=
    loopRule (growingAdvances large grants) Stop.endless base 4097 (by show 4096 - 0 < 4097; omega)
  have most : firstSize info.size + 512 * 4095 - 1 = mostRead info.size := rfl
  rw [most] at got shape once
  have ended : terminate last =
      .ok {last with buf := (files.contents filename).take (mostRead info.size) ++ 0 :: rest} := by
    unfold terminate
    rw [if_neg (by omega), shape, storeAt _ (by rw [got, Int.toNat_natCast])]
    rfl
  have ran : procFill memory files info stream =
      .ok {last with buf := (files.contents filename).take (mostRead info.size) ++ 0 :: rest} := by
    unfold procFill readLoop
    rw [started]
    show (loop (readRound memory files) .endless 4097 (startOf block stream)).bind terminate = _
    rw [read]
    exact ended
  refine ⟨rest,_,⟨ran,rfl,got,?_,block,last,started,once,ended⟩,holds.named,?_⟩
  · rw [← holds.whole, shape, List.length_append, List.length_append]
    rfl
  · rw [← grown]
    exact holds.whole.symm

structure FileSplit (text rest : Bytes) (next : ProcInfo) : Prop where
  buf : next.buf = some ((splitLines 0 0 text).1 ++ 0 :: rest)
  size : ((text ++ 0 :: rest).length : Int) = next.size
  lines : next.lines = (splitLines 0 0 text).2.length
  line : ∃ others, next.line = (0 :: (splitLines 0 0 text).2).map some ++ others

theorem splitEnds {line : List (Option Nat)} (table : line.length = procMaxlines) {num : Int} (plain : num ≠ pVersion)
    (entry : info.line = line) {m : Reading} {text rest : Bytes} (buf : m.buf = text ++ 0 :: rest)
    (got : m.got = text.length) : ∃ split, procSplit info num m = .ok split ∧ Split text rest split := by
  have left : line ≠ [] := by
    intro none
    rw [none] at table
    exact absurd table (by decide)
  obtain ⟨old,others,rfl⟩ := List.exists_cons_of_ne_nil left
  have entered : store Stop.outOfBounds info.line 0 (some 0) = .ok (some 0 :: others) := by
    rw [entry]
    exact storeInside _ (Nat.succ_pos _) _
  have base : Midway text rest ⟨0,0,some 0 :: others,m.buf⟩ :=
    ⟨[],text,[some 0],others,buf,rfl,Nat.zero_add _,rfl,rfl,table,by show 0 < procMaxlines - 1; decide,rfl,rfl⟩
  obtain ⟨split,ran,done⟩ := loopRule splitAdvances Stop.endless base (text.length + 1)
    (by show text.length - 0 < text.length + 1; omega)
  refine ⟨split,?_,done⟩
  unfold procSplit
  rw [entered, got, Int.toNat_natCast]
  simp only [bind, Except.bind, if_neg plain]
  exact ran

theorem procReadEnds (held : Held filename info) (due : info.readThisInterval = 0)
    (opens : info.fp = none → files.opens filename = true) (granted : Granted memory files filename info)
    {num : Int} (plain : num ≠ pVersion) (reread : Bool) (cpuDone : Int) :
    ∃ stream rest filled next, openRewound files info = some stream ∧
      FileRead memory files info stream ((files.contents filename).take (mostRead info.size)) rest filled ∧
      ProcRead.procRead memory files cpuDone info num reread = .ok (if num = pStat then 0 else cpuDone,next) ∧
      FileSplit ((files.contents filename).take (mostRead info.size)) rest next ∧
      next.fp.map Stream.name = (if reread then none else some filename) ∧ next.filename = filename ∧
      next.readThisInterval = 1 ∧
      next.size = (fillBuffer (files.contents filename) 4096 (firstSize info.size) []).1 := by
  obtain ⟨stream,opened⟩ : ∃ stream, openRewound files info = some stream := by
    unfold openRewound
    cases there : info.fp with
    | some stream => exact ⟨_,rfl⟩
    | none => exact ⟨_,if_pos (by rw [held.named]; exact opens there)⟩
  obtain ⟨named,atStart⟩ := openedNamed held opened
  obtain ⟨rest,filled,read,kept,size⟩ := fillReads held granted named atStart
  obtain ⟨split,parted,buf,lines,line⟩ := splitEnds held.table plain rfl read.buf read.got
  have ran : ProcRead.procRead memory files cpuDone info num reread =
      .ok (if num = pStat then 0 else cpuDone,
        {info with fp := if reread then none else some filled.stream, size := filled.size, lines := split.lines,
                   line := split.line, buf := some split.buf, readThisInterval := 1}) := by
    unfold ProcRead.procRead
    rw [if_neg (by rw [due]; decide), opened]
    simp only [bind, Except.bind, read.ran, parted]
  refine ⟨stream,rest,filled,_,opened,read,ran,⟨congrArg some buf,?_,lines,line⟩,?_,held.named,rfl,size⟩
  · rw [← read.buf]
    exact read.size
  · cases reread with
    | true => rfl
    | false => exact congrArg some kept

theorem splitEntries {text rest : Bytes} {next : ProcInfo} (h : FileSplit text rest next) :
    next.lines = min (procMaxlines - 1) (text.count 10) ∧
    (∀ k < next.lines, ∃ l start buf, (rowsOf text)[k]? = some l ∧ next.line[k]? = some (some start) ∧
      next.buf = some buf ∧ (cut (buf.drop start)).bytes = (cut (detab l)).bytes) ∧
    next.line[next.lines]? = some (some (unlines ((rowsOf text).take next.lines)).length) := by
  obtain ⟨count,entries,rows⟩ := splitFile text
  obtain ⟨others,line⟩ := h.line
  have entry : ∀ k ≤ next.lines, next.line[k]? = some (some (unlines ((rowsOf text).take k)).length) := by
    intro k inside
    rw [h.lines] at inside
    rw [line, List.getElem?_append_left (by rw [List.length_map, List.length_cons]; omega), List.getElem?_map,
      entries k inside]
    rfl
  refine ⟨h.lines.trans count,?_,entry next.lines (Nat.le_refl _)⟩
  intro k inside
  obtain ⟨l,there,tail,shown⟩ := rows k (by rw [← h.lines]; exact inside)
  have room := congrArg List.length shown
  rw [List.length_drop, splitLength, List.length_append, List.length_cons] at room
  refine ⟨l,_,_,there,entry k (by omega),h.buf,?_⟩
  rw [List.drop_append_of_le_length (by rw [splitLength]; omega), shown, List.append_assoc, List.cons_append,
    cutBehind]

/- A call whose stream opens and whose memory is granted ends, with every access inside the
block and the table; it has read the file once and made its lines the entries of the table. -/
theorem procReadSplits (reached : Reached filename info) (due : info.readThisInterval = 0)
    (opens : info.fp = none → files.opens filename = true) (noNul : 0 ∉ files.contents filename)
    (granted : Granted memory files filename info) {num : Int} (plain : num ≠ pVersion) (reread : Bool)
    (cpuDone : Int) :
    ∃ text stream rest filled next, text = (files.contents filename).take (mostRead info.size) ∧
      openRewound files info = some stream ∧ FileRead memory files info stream text rest filled ∧
      ProcRead.procRead memory files cpuDone info num reread = .ok (if num = pStat then 0 else cpuDone,next) ∧
      FileSplit text rest next ∧ next.lines = min (procMaxlines - 1) (text.count 10) ∧
      (∀ k < next.lines, ∃ l start buf, (rowsOf text)[k]? = some l ∧ next.line[k]? = some (some start) ∧
        next.buf = some buf ∧ (cut (buf.drop start)).bytes = detab l) ∧
      next.line[next.lines]? = some (some (unlines ((rowsOf text).take next.lines)).length) ∧
      next.line.length = procMaxlines := by
  have held := reachedHeld reached
  obtain ⟨stream,rest,filled,next,opened,read,ran,split,_⟩ :=
    procReadEnds held due opens granted plain reread cpuDone
  obtain ⟨lines,rows,behind⟩ := splitEntries split
  refine ⟨_,stream,rest,filled,next,rfl,opened,read,ran,split,lines,?_,behind,(readHeld held ran).table⟩
  intro k inside
  obtain ⟨l,start,buf,there,entry,block,shown⟩ := rows k inside
  refine ⟨l,start,buf,there,entry,block,?_⟩
  have clean : 0 ∉ l := fun member =>
    noNul (List.mem_of_mem_take (rowsOfMember (List.mem_of_getElem? there) member))
  rw [shown, cutNoNul (detabNoNul clean)]

end Call

theorem smallBounded (n : Nat) (small : decide (n < 2 ^ 20) = true) : n < 2 ^ 63 := by
  have := of_decide_eq_true small
  omega

def smallMemory : Memory := ⟨fun n => decide (n < 2 ^ 20),fun _ => 255,smallBounded⟩

def tabbed : Files := ⟨fun _ => true,fun _ => ascii "A:\t1\n" ++ (List.replicate 700 66 ++ ascii "\nC")⟩

theorem tabbedLength (name : String) : (tabbed.contents name).length = 707 := by
  show (ascii "A:\t1\n" ++ (List.replicate 700 66 ++ ascii "\nC")).length = 707
  rw [List.length_append, List.length_append, List.length_replicate]
  rfl

theorem tabbedGranted : Granted smallMemory tabbed "/proc/meminfo" (.zero "/proc/meminfo") := by
  intro n asked
  rcases asked with first | later
  · rw [first.2]
    decide
  · obtain ⟨j,_,full,size⟩ := later
    have first : firstSize (ProcInfo.zero "/proc/meminfo").size = 512 := rfl
    rw [tabbedLength, first] at full
    have one : j = 0 := by omega
    rw [size, first, one, toSizeToInt (by decide)]
    rfl

theorem procReadSplitsTwo : ∃ next, ProcRead.procRead smallMemory tabbed 1 (.zero "/proc/meminfo") 3 false =
    .ok (1,next) ∧ next.lines = 2 ∧ 512 < next.size := by
  have noNul : 0 ∉ tabbed.contents "/proc/meminfo" := by decide +kernel
  obtain ⟨text,stream,rest,filled,next,all,_,_,ran,split,lines,_⟩ := procReadSplits
    (Reached.zero : Reached "/proc/meminfo" _) rfl (fun _ => rfl) noNul tabbedGranted
    (by decide : (3 : Int) ≠ pVersion) false 1
  have room : (tabbed.contents "/proc/meminfo").length ≤ mostRead (ProcInfo.zero "/proc/meminfo").size := by
    rw [tabbedLength]
    decide
  rw [List.take_of_length_le room] at all
  refine ⟨next,ran,?_,?_⟩
  · rw [lines, all]
    decide +kernel
  · rw [← split.size, all, List.length_append, tabbedLength, List.length_cons]
    omega

structure Abstracts (low : ProcInfo) (high : NmonProc) : Prop where
  fp : high.fp = low.fp.map Stream.name
  filename : high.filename = low.filename
  size : (high.size : Int) = low.size
  due : high.readThisInterval = low.readThisInterval

structure Extends (low : ProcInfo) (high : NmonProc) : Prop where
  lines : low.lines = high.lines
  line : ∃ others, low.line = high.line.map some ++ others
  buf : ∃ others, low.buf = some (high.buf ++ others)

def number : ProcFile → Int
  | .cpuinfo => 0
  | .stat => pStat
  | .version => pVersion
  | .meminfo => 3
  | .uptime => 4
  | .loadavg => 5
  | .nfs => 6
  | .nfsd => 7
  | .vmstat => 8

theorem procReadRefines {memory : Memory} {files : Files} {file : ProcFile} {low : ProcInfo} {high : NmonProc}
    (held : Held file.filename low) (abstracts : Abstracts low high) (due : low.readThisInterval = 0)
    (opens : low.fp = none → files.opens file.filename = true) (granted : Granted memory files file.filename low)
    (plain : file ≠ .version) (g : Statics) (reread : Bool) :
    ∃ next, ProcRead.procRead memory files g.procCpuDone low (number file) reread =
        .ok ((Nmon.procRead files g high file reread).1.procCpuDone,next) ∧
      Abstracts next (Nmon.procRead files g high file reread).2 ∧
      Extends next (Nmon.procRead files g high file reread).2 := by
  have other : number file ≠ pVersion := by
    cases file with
    | version => exact absurd rfl plain
    | _ => decide
  have isStat : number file = pStat ↔ file = .stat := by
    cases file with
    | stat => decide
    | _ => decide
  obtain ⟨stream,rest,filled,next,_,_,ran,split,fp,name,done,size⟩ :=
    procReadEnds held due opens granted other reread g.procCpuDone
  obtain ⟨others,line⟩ := split.line
  have lowName : high.fp.getD high.filename = file.filename := by
    rw [abstracts.fp, abstracts.filename, held.named]
    cases there : low.fp with
    | none => rfl
    | some stream => exact held.stream stream there
  have first : (if high.size = 0 then 512 else high.size) = firstSize low.size := by
    have same := abstracts.size
    unfold firstSize
    split
    · rw [if_pos (by omega)]
    · rw [if_neg (by omega)]
      omega
  have due' : ¬ high.readThisInterval = 1 := by
    rw [abstracts.due, due]
    decide
  have opened : ¬ (high.fp = none ∧ files.opens high.filename = false) := by
    intro h
    have closed : low.fp = none := Option.map_eq_none_iff.mp (abstracts.fp ▸ h.1)
    rw [abstracts.filename, held.named, opens closed] at h
    exact Bool.noConfusion h.2
  have pure : Nmon.procRead files g high file reread =
      (if file = .stat then {g with procCpuDone := 0} else g,
        {high with
          fp := if reread then none else some file.filename,
          size := (fillBuffer (files.contents file.filename) 4096 (firstSize low.size) []).1,
          lines := (splitLines 0 0 ((files.contents file.filename).take (mostRead low.size))).2.length,
          line := 0 :: (splitLines 0 0 ((files.contents file.filename).take (mostRead low.size))).2,
          buf := (splitLines 0 0 ((files.contents file.filename).take (mostRead low.size))).1 ++ [0],
          readThisInterval := 1}) := by
    have read := fillBufferTaken (files.contents file.filename) 4095 (firstSize low.size) []
    unfold Nmon.procRead mostRead
    rw [if_neg due', if_neg opened]
    simp only [lowName, first, if_neg plain, read]
  rw [pure]
  refine ⟨next,?_,⟨fp.symm,?_,size.symm,done.symm⟩,split.lines,⟨others,line⟩,rest,?_⟩
  · rw [ran]
    by_cases stat : file = .stat
    · rw [if_pos (isStat.mpr stat), if_pos stat]
    · rw [if_neg (fun h => stat (isStat.mp h)), if_neg stat]
  · exact abstracts.filename.trans (held.named.trans name.symm)
  · rw [split.buf, List.append_assoc]
    rfl

end VmpRl.ProcReadLines
