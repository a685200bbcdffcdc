import Mathlib.Algebra.Order.Field.Rat
import Mathlib.Tactic.FieldSimp
import VmpRl.LoadSystem
import VmpRl.NmonSnapshots

/-! Two runs of `system_net_proc` on the same files and clock, from different contents of its local
arrays: which slots the passes have filled when a rate is taken from them. -/
namespace VmpRl.LoadIndependence
open CRuntime Nmon ProcFiles NmonNet NmonLines NmonStat NmonSnapshots LoadSystem

structure Locals where
  proc : ProcFile → NmonProc
  sysData : Bool → SystemData

def enteredWith (l : Locals) (thiz : PrivInfo) : Frame where
  sysData := l.sysData
  p := false
  q := true
  proc := l.proc
  statics := Statics.initial
  which := true
  thiz := thiz
  report := ⟨[],0,0,0,0,0⟩

/- The fields that are read before they are written: the handle, the size and the flag of the two entries
in use. -/
structure Closed (l : Locals) : Prop where
  statFp : (l.proc .stat).fp = none
  statSize : (l.proc .stat).size = 0
  statFlag : (l.proc .stat).readThisInterval ≠ 1
  memFp : (l.proc .meminfo).fp = none
  memSize : (l.proc .meminfo).size = 0
  memFlag : (l.proc .meminfo).readThisInterval = 0

inductive Double where
  | number (v : ℚ)
  | infinity
  | nan
  deriving DecidableEq

/- The clock counts microseconds; by an elapsed time of 0.0 the division gives an infinity or NaN. -/
def double : Rate → Double
  | .zero => .number 0
  | .per bytes elapsed =>
    if elapsed = 0 then (if bytes = 0 then .nan else .infinity)
    else .number (bytes / (elapsed / 1000000) / 1024)

structure SameOutput (a b : PrivInfo) : Prop where
  uplink : double a.uplink = double b.uplink
  downlink : double a.downlink = double b.downlink
  cpuIdle : a.cpuIdle = b.cpuIdle
  memTotal : a.memTotal = b.memTotal
  memFree : a.memFree = b.memFree

def side (j : Nat) : Bool := j % 2 == 0

def rowAt (s : Sample) (i : Nat) : Option NetStat := (s.net.interfaces[i]?).map netStat

def held (samples : Nat → Sample) : Nat → Bool → Nat → Option NetStat
  | 0, _, i => rowAt (samples 0) i
  | k+1, b, i =>
    if b = side (k + 1) then (rowAt (samples (k + 1)) i).or (held samples k b i) else held samples k b i

def oldSlot (l : Locals) (samples : Nat → Sample) (k i : Nat) : NetStat :=
  (held samples k (side k) i).getD ((l.sysData (side k)).ifnets i)

def ratesSeen (l : Locals) (samples : Nat → Sample) (k : Nat) : List (Rate × Rate) :=
  (samples (k + 1)).net.interfaces.mapIdx (fun i row =>
    (ifDelta (oldSlot l samples k i).ifIbytes (row.counters.nth 0) ((samples (k + 1)).clock - (samples k).clock),
     ifDelta (oldSlot l samples k i).ifObytes (row.counters.nth 8) ((samples (k + 1)).clock - (samples k).clock)))

def publishedAt (l : Locals) (samples : Nat → Sample) (thiz : PrivInfo) : Nat → PrivInfo
  | 0 => {thiz with interval := 1}
  | k+1 =>
    let before := publishedAt l samples thiz k
    let r := between (samples k) (samples (k + 1))
    {before with uplink := ((ratesSeen l samples k).getLast?.map Prod.fst).getD before.uplink,
                 downlink := ((ratesSeen l samples k).getLast?.map Prod.snd).getD before.downlink,
                 cpuIdle := (r.cpuIdle,r.cpuSum), memTotal := (samples (k + 1)).mem.total.value,
                 memFree := (samples (k + 1)).mem.free.value}

/- The slot of the last interface of pass `k+1` was filled by an earlier pass into the same buffer, or the rates
are 0 whatever it holds. -/
def Covered (samples : Nat → Sample) (k : Nat) : Prop :=
  ∀ row, (samples (k + 1)).net.interfaces.getLast? = some row →
    (∃ j ≤ k, (j = 0 ∨ j % 2 = k % 2) ∧
      (samples (k + 1)).net.interfaces.length ≤ (samples j).net.interfaces.length) ∨
    ((samples (k + 1)).clock ≠ (samples k).clock ∧ row.counters.nth 0 = 0 ∧ row.counters.nth 8 = 0)

theorem rowFilled (s : Sample) (i : Nat) : (rowAt s i).isSome ↔ i < s.net.interfaces.length := by
  unfold rowAt
  simp

theorem heldFilled (samples : Nat → Sample) (k : Nat) (b : Bool) (i : Nat) :
    (held samples k b i).isSome ↔ ∃ j ≤ k, (j = 0 ∨ side j = b) ∧ i < (samples j).net.interfaces.length := by
  induction k with
  | zero =>
    unfold held
    rw [rowFilled]
    constructor
    · intro inside
      exact ⟨0,Nat.le_refl 0,Or.inl rfl,inside⟩
    · intro h
      obtain ⟨j,first,_,inside⟩ := h
      rw [Nat.le_zero.mp first] at inside
      exact inside
  | succ k ih =>
    unfold held
    by_cases now : b = side (k + 1)
    · rw [if_pos now, Option.isSome_or, Bool.or_eq_true, rowFilled, ih]
      constructor
      · intro h
        rcases h with inside | ⟨j,early,buffer,inside⟩
        · exact ⟨k + 1,Nat.le_refl _,Or.inr now.symm,inside⟩
        · exact ⟨j,Nat.le_succ_of_le early,buffer,inside⟩
      · intro h
        obtain ⟨j,early,buffer,inside⟩ := h
        rcases Nat.le_succ_iff.mp early with earlier | rfl
        · exact Or.inr ⟨j,earlier,buffer,inside⟩
        · exact Or.inl inside
    · rw [if_neg now, ih]
      constructor
      · intro h
        obtain ⟨j,early,buffer,inside⟩ := h
        exact ⟨j,Nat.le_succ_of_le early,buffer,inside⟩
      · intro h
        obtain ⟨j,early,buffer,inside⟩ := h
        rcases Nat.le_succ_iff.mp early with earlier | rfl
        · exact ⟨j,earlier,buffer,inside⟩
        · rcases buffer with zero | same
          · exact absurd zero (Nat.succ_ne_zero k)
          · exact absurd same.symm now

structure Tracked (l : Locals) (samples : Nat → Sample) (m : Frame) (k : Nat) : Prop where
  which : m.which = side k
  time : (m.sysData (side k)).time = (samples k).clock
  total : TotalHolds (m.sysData (side k)).cpuTotal (samples k).stat.toStatCounts
  slots : ∀ b i, (m.sysData b).ifnets i = (held samples k b i).getD ((l.sysData b).ifnets i)
  stat : Entry .stat (m.proc .stat)
  meminfo : Entry .meminfo (m.proc .meminfo)
  net : m.statics.netFp ≠ .null
  settled : Settled m.statics

theorem getCpuCntDue {files : Files} (opens : ∀ name, files.opens name = true) {info : NmonProc}
    (due : info.readThisInterval ≠ 1) (g : Statics) :
    getCpuCnt files g info = getCpuCnt files g {info with readThisInterval := 0} := by
  have read : procRead files g info .stat false = procRead files g {info with readThisInterval := 0} .stat false := by
    have cleared : ¬ (0 : Int) = 1 := by decide
    have openable : ¬ (info.fp = none ∧ files.opens info.filename = false) := by simp [opens]
    simp only [procRead, if_neg due, if_neg cleared, if_neg openable]
  unfold getCpuCnt
  rw [read]

theorem getCpuCntDone {files : Files} (opens : ∀ name, files.opens name = true) {info read : NmonProc}
    (due : info.readThisInterval ≠ 1) {g next : Statics} {cpus : Nat}
    (ran : getCpuCnt files g info = .ok (next,read,cpus)) : next.procCpuDone = 0 := by
  unfold getCpuCnt procRead at ran
  rw [if_neg due, if_neg (by simp [opens])] at ran
  simp only [if_true, bind, Except.bind] at ran
  split at ran
  · cases ran
  · split at ran
    · cases ran
    · cases Except.ok.inj ran
      rfl

theorem roundSettled {seen : Seen} {s : Sample} (gives : Gives seen s) {g : Statics} {stat meminfo : NmonProc}
    {p : SystemData} (due : stat.readThisInterval = 0) (r : Round seen s g stat meminfo p) : Settled r.next := by
  have done := getCpuCntDone gives.opens (by rw [due]; decide) r.count
  exact settledTuned r.tuned (procCpuLast (by rw [done]; decide) r.cpu)

theorem getDOr {α : Type} (a b : Option α) (c : α) : (a.or b).getD c = a.getD (b.getD c) := by
  cases a with
  | none => rfl
  | some _ => rfl

theorem slotsRead (p : SystemData) (s : Sample) (i : Nat) :
    (systemInterfaceStat p (s.net.interfaces.map netStat)).ifnets i = (rowAt s i).getD (p.ifnets i) := by
  show (s.net.interfaces.map netStat).getD i (p.ifnets i) = _
  rw [List.getD_eq_getElem?_getD, List.getElem?_map]
  rfl

theorem slotsCopied (s : Sample) (old target : Nat → NetStat) (i : Nat) :
    copyCells s.net.interfaces.length (fun i => (rowAt s i).getD (old i)) target i = (rowAt s i).getD (target i) := by
  unfold copyCells
  by_cases inside : i < s.net.interfaces.length
  · obtain ⟨row,there⟩ := Option.isSome_iff_exists.mp ((rowFilled s i).mpr inside)
    rw [if_pos inside]
    simp only [there, Option.getD_some]
  · have none : rowAt s i = none := by
      rw [← Option.not_isSome_iff_eq_none, rowFilled]
      exact inside
    rw [if_neg inside, none]
    rfl

theorem sideNext (k : Nat) : side (k + 1) = !side k := by
  unfold side
  rcases Nat.mod_two_eq_zero_or_one k with even | odd
  · have next : (k + 1) % 2 = 1 := by omega
    rw [even, next]
    rfl
  · have next : (k + 1) % 2 = 0 := by omega
    rw [odd, next]
    rfl

theorem enterTracked {seen : Seen} {samples : Nat → Sample} (gives : Gives seen (samples 0)) {l : Locals}
    (closed : Closed l) (thiz : PrivInfo) :
    ∃ m, enter seen (enteredWith l thiz) = .ok m ∧ m.thiz = publishedAt l samples thiz 0 ∧
      Tracked l samples m 0 := by
  have statEntry : Entry .stat {procInit l.proc .stat with readThisInterval := 0} :=
    ⟨rfl,Or.inl closed.statFp,Or.inl closed.statSize⟩
  have memEntry : Entry .meminfo (procInit l.proc .meminfo) := ⟨rfl,Or.inl closed.memFp,Or.inl closed.memSize⟩
  obtain ⟨r⟩ := roundRead gives (g := Statics.initial) (by decide) (tunedInitial _) statEntry memEntry rfl
    closed.memFlag {l.sysData false with time := seen.clock}
  have settled := roundSettled gives rfl r
  have flag : (procInit l.proc .stat).readThisInterval ≠ 1 := closed.statFlag
  have count := (getCpuCntDue gives.opens flag r.opened).trans r.count
  unfold enter enteredWith
  simp only [r.net, count, r.cpu, r.memory, bind, Except.bind]
  refine ⟨_,rfl,rfl,rfl,gives.clock,r.total,?_,r.statKept,r.memKept,r.usable,settled⟩
  intro b i
  cases b with
  | false => exact slotsRead _ _ i
  | true =>
    have copied := slotsCopied (samples 0) (l.sysData false).ifnets (l.sysData true).ifnets i
    show copyCells _ (fun i => (systemInterfaceStat _ _).ifnets i) _ i = _
    simp only [slotsRead]
    exact copied

theorem reportSeen (l : Locals) (samples : Nat → Sample) {k : Nat} {p q : SystemData}
    (now : p.time = (samples (k + 1)).clock) (past : q.time = (samples k).clock)
    (new : TotalHolds p.cpuTotal (samples (k + 1)).stat.toStatCounts)
    (old : TotalHolds q.cpuTotal (samples k).stat.toStatCounts)
    (rows : ∀ i row, (samples (k + 1)).net.interfaces[i]? = some row → p.ifnets i = netStat row)
    (slots : ∀ i, q.ifnets i = oldSlot l samples k i) :
    reportOf p q (samples (k + 1)).net.interfaces.length =
      {between (samples k) (samples (k + 1)) with rates := ratesSeen l samples k} := by
  have rates : ratesOf p q (samples (k + 1)).net.interfaces.length = ratesSeen l samples k := by
    unfold ratesOf ratesSeen
    apply List.ext_getElem
    · simp
    · intro i inside _
      have newInside : i < (samples (k + 1)).net.interfaces.length := by simpa using inside
      have row := rows i _ (List.getElem?_eq_getElem newInside)
      simp only [List.getElem_map, List.getElem_range, List.getElem_mapIdx, row, slots, now, past, netStat]
  simp only [reportOf, between, rates, rawTotal, new.user, new.nice, new.sys, new.irq, new.softirq, new.wait,
    new.idle, new.steal, old.user, old.nice, old.sys, old.irq, old.softirq, old.wait, old.idle, old.steal]

theorem passTracked {seen : Seen} {samples : Nat → Sample} {l : Locals} {thiz : PrivInfo} {m : Frame} {k : Nat}
    (gives : Gives seen (samples (k + 1))) (published : m.thiz = publishedAt l samples thiz k)
    (tracked : Tracked l samples m k) :
    ∃ next, LoadSystem.pass seen m = .ok next ∧ next.thiz = publishedAt l samples thiz (k + 1) ∧
      Tracked l samples next (k + 1) := by
  obtain ⟨r⟩ := roundRead gives tracked.net (tracked.settled.tuned _) (entryDue tracked.stat)
    (entryDue tracked.meminfo) rfl rfl {m.sysData (side (k + 1)) with time := seen.clock}
  have settled := roundSettled gives rfl r
  have apart : side k ≠ side (k + 1) := by
    rw [sideNext]
    simp
  have report := reportSeen l samples (k := k)
    (p := {systemInterfaceStat {m.sysData (side (k + 1)) with time := seen.clock}
      ((samples (k + 1)).net.interfaces.map netStat) with cpuTotal := r.cpuTotal, cpuN := r.cpuN})
    (q := m.sysData (side k)) gives.clock tracked.time r.total tracked.total
    (fun i row there => interfacesRead _ there) (fun i => tracked.slots (side k) i)
  unfold LoadSystem.pass
  simp only [dataSwitched, tracked.which, ← sideNext, r.net, r.count, r.cpu, r.memory, bind, Except.bind, report]
  refine ⟨_,rfl,?_,rfl,?_,?_,?_,r.statKept,r.memKept,r.usable,settled⟩
  · simp only [publishedAt, PrivInfo.publish, published, r.memTotal, r.memFree]
    rfl
  · simp only [Function.update_self]
    exact gives.clock
  · simp only [Function.update_self]
    exact r.total
  · intro b i
    unfold held
    by_cases now : b = side (k + 1)
    · rw [if_pos now, now]
      simp only [Function.update_self]
      rw [getDOr, ← tracked.slots (side (k + 1)) i]
      exact slotsRead _ _ i
    · rw [if_neg now]
      simp only [Function.update_of_ne now]
      exact tracked.slots b i

theorem passesTracked {samples : Nat → Sample} {seen : Nat → Seen} (gives : ∀ k, Gives (seen k) (samples k))
    {l : Locals} (closed : Closed l) (thiz : PrivInfo) (k : Nat) :
    ∃ m, passes (enteredWith l thiz) seen k = .ok m ∧ m.thiz = publishedAt l samples thiz k ∧
      Tracked l samples m k := by
  induction k with
  | zero => exact enterTracked (gives 0) closed thiz
  | succ k ih =>
    obtain ⟨m,ran,published,tracked⟩ := ih
    obtain ⟨next,passed,after,kept⟩ := passTracked (gives (k + 1)) published tracked
    refine ⟨next,?_,after,kept⟩
    unfold passes
    rw [ran]
    exact passed

theorem lastRate (l : Locals) {samples : Nat → Sample} {k : Nat} {row : Interface}
    (last : (samples (k + 1)).net.interfaces.getLast? = some row) :
    (ratesSeen l samples k).getLast? =
      some (ifDelta (oldSlot l samples k ((samples (k + 1)).net.interfaces.length - 1)).ifIbytes
          (row.counters.nth 0) ((samples (k + 1)).clock - (samples k).clock),
        ifDelta (oldSlot l samples k ((samples (k + 1)).net.interfaces.length - 1)).ifObytes
          (row.counters.nth 8) ((samples (k + 1)).clock - (samples k).clock)) := by
  unfold ratesSeen
  rw [List.getLast?_mapIdx, last]
  rfl

theorem lastFilled {samples : Nat → Sample} {k : Nat} {row : Interface}
    (last : (samples (k + 1)).net.interfaces.getLast? = some row) :
    (held samples k (side k) ((samples (k + 1)).net.interfaces.length - 1)).isSome ↔
      ∃ j ≤ k, (j = 0 ∨ j % 2 = k % 2) ∧
        (samples (k + 1)).net.interfaces.length ≤ (samples j).net.interfaces.length := by
  have positive : 0 < (samples (k + 1)).net.interfaces.length := by
    apply List.length_pos_of_ne_nil
    intro none
    rw [none] at last
    cases last
  have same (j : Nat) : side j = side k ↔ j % 2 = k % 2 := by
    unfold side
    rw [Bool.eq_iff_iff, beq_iff_eq, beq_iff_eq]
    omega
  rw [heldFilled]
  constructor
  · intro h
    obtain ⟨j,early,buffer,inside⟩ := h
    rw [same] at buffer
    exact ⟨j,early,buffer,by omega⟩
  · intro h
    obtain ⟨j,early,buffer,enough⟩ := h
    rw [← same] at buffer
    exact ⟨j,early,buffer,by omega⟩

theorem doublePer {bytes : Nat} {elapsed : Int} (moves : elapsed ≠ 0) :
    double (.per bytes elapsed) = .number (bytes * 1000000 / (1024 * elapsed)) := by
  have divisor : (elapsed : ℚ) ≠ 0 := Int.cast_ne_zero.mpr moves
  simp only [double, if_neg moves, Double.number.injEq]
  field_simp

theorem doubleStill (bytes : Nat) : double (.per bytes 0) = if bytes = 0 then .nan else .infinity := rfl

theorem doubleZero {q p : Nat} {elapsed : Int} :
    double (ifDelta q p elapsed) = .number 0 ↔ p < q ∨ (elapsed ≠ 0 ∧ p = q) := by
  unfold ifDelta
  split
  · rename_i fell
    exact ⟨fun _ => Or.inl fell,fun _ => rfl⟩
  · rename_i grew
    by_cases still : elapsed = 0
    · rw [still, doubleStill]
      split <;> simp [grew]
    · have divisor : (1024 * elapsed : ℚ) ≠ 0 := mul_ne_zero (by decide) (Int.cast_ne_zero.mpr still)
      have value : ((p - q : Nat) : ℚ) * 1000000 / (1024 * elapsed) = 0 ↔ p = q := by
        rw [div_eq_zero_iff, or_iff_left divisor, mul_eq_zero, or_iff_left (by decide), Nat.cast_eq_zero]
        omega
      rw [doublePer still, Double.number.injEq, value]
      simp [grew, still]

theorem doubleNan {q p : Nat} {elapsed : Int} :
    double (ifDelta q p elapsed) = .nan ↔ elapsed = 0 ∧ p = q := by
  unfold ifDelta
  split
  · simp only [double, reduceCtorEq, false_iff]
    omega
  · by_cases still : elapsed = 0
    · rw [still, doubleStill]
      split <;> simp <;> omega
    · simp [doublePer still, still]

theorem doubleInfinity {q p : Nat} {elapsed : Int} :
    double (ifDelta q p elapsed) = .infinity ↔ elapsed = 0 ∧ q < p := by
  unfold ifDelta
  split
  · simp only [double, reduceCtorEq, false_iff]
    omega
  · by_cases still : elapsed = 0
    · rw [still, doubleStill]
      split <;> simp <;> omega
    · simp [doublePer still, still]

theorem deltaShows (p : Nat) (elapsed : Int)
    (same : double (ifDelta 0 p elapsed) = double (ifDelta (max p 1) p elapsed)) : elapsed ≠ 0 ∧ p = 0 := by
  rcases Nat.eq_zero_or_pos p with none | some_
  · have fallen : double (ifDelta (max p 1) p elapsed) = .number 0 := doubleZero.mpr (Or.inl (by omega))
    rw [fallen, doubleZero] at same
    omega
  · have most : max p 1 = p := by omega
    by_cases still : elapsed = 0
    · rw [most, doubleInfinity.mpr ⟨still,some_⟩] at same
      have stays := doubleInfinity.mp same.symm
      omega
    · rw [most, doubleZero.mpr (Or.inr ⟨still,rfl⟩), doubleZero] at same
      omega

theorem coveredOutput {samples : Nat → Sample} (covered : ∀ k, Covered samples k) (l l' : Locals) (thiz : PrivInfo)
    (k : Nat) : SameOutput (publishedAt l samples thiz k) (publishedAt l' samples thiz k) := by
  induction k with
  | zero => exact ⟨rfl,rfl,rfl,rfl,rfl⟩
  | succ k ih =>
    cases last : (samples (k + 1)).net.interfaces.getLast? with
    | none =>
      have none := List.getLast?_eq_none_iff.mp last
      have empty (l : Locals) : ratesSeen l samples k = [] := by simp [ratesSeen, none]
      simp only [publishedAt, empty]
      exact ⟨ih.uplink,ih.downlink,rfl,rfl,rfl⟩
    | some row =>
      simp only [publishedAt, lastRate l last, lastRate l' last]
      rcases covered k row last with filled | ⟨moves,received,sent⟩
      · obtain ⟨old,there⟩ := Option.isSome_iff_exists.mp ((lastFilled last).mpr filled)
        simp only [oldSlot, there, Option.getD_some]
        exact ⟨rfl,rfl,rfl,rfl,rfl⟩
      · have zero (slot : Nat) : double (ifDelta slot 0 ((samples (k + 1)).clock - (samples k).clock)) = .number 0 :=
          doubleZero.mpr (by omega)
        rw [received, sent]
        exact ⟨(zero _).trans (zero _).symm,(zero _).trans (zero _).symm,rfl,rfl,rfl⟩

def SamplesAlone (seen : Nat → Seen) : Prop :=
  ∀ l l', Closed l → Closed l' → ∀ thiz k,
    ∃ m m', passes (enteredWith l thiz) seen k = .ok m ∧ passes (enteredWith l' thiz) seen k = .ok m' ∧
      SameOutput m.thiz m'.thiz

def localsWith (received sent : Nat) : Locals where
  proc := fun f => ⟨none,f.filename,0,0,[],[],0⟩
  sysData := fun _ => {zeroData with ifnets := fun _ => {NetStat.zero with ifIbytes := received, ifObytes := sent}}

theorem localsClosed (received sent : Nat) : Closed (localsWith received sent) :=
  ⟨rfl,rfl,show (0 : Int) ≠ 1 by decide,rfl,rfl,rfl⟩

theorem unfilledShows {samples : Nat → Sample} {seen : Nat → Seen} (gives : ∀ k, Gives (seen k) (samples k))
    (alone : SamplesAlone seen) {k : Nat} {row : Interface}
    (last : (samples (k + 1)).net.interfaces.getLast? = some row)
    (unfilled : held samples k (side k) ((samples (k + 1)).net.interfaces.length - 1) = none) :
    (samples (k + 1)).clock ≠ (samples k).clock ∧ row.counters.nth 0 = 0 ∧ row.counters.nth 8 = 0 := by
  have low := localsClosed 0 0
  have high := localsClosed (max (row.counters.nth 0) 1) (max (row.counters.nth 8) 1)
  obtain ⟨m,m',ran,ran',same⟩ := alone _ _ low high idlePriv (k + 1)
  obtain ⟨_,again,published,_⟩ := passesTracked gives low idlePriv (k + 1)
  obtain ⟨_,again',published',_⟩ := passesTracked gives high idlePriv (k + 1)
  rw [ran] at again
  rw [ran'] at again'
  cases Except.ok.inj again
  cases Except.ok.inj again'
  obtain ⟨up,down,_⟩ := same
  rw [published, published'] at up down
  simp only [publishedAt, lastRate _ last, oldSlot, unfilled, Option.getD_none, Option.map_some, Option.getD_some,
    localsWith] at up down
  obtain ⟨moves,received⟩ := deltaShows _ _ up
  exact ⟨fun still => moves (by omega),received,(deltaShows _ _ down).2⟩

/- Exactly if on every pass the last interface has a slot that was filled, or nothing to show. -/
theorem samplesAlone {samples : Nat → Sample} {seen : Nat → Seen} (gives : ∀ k, Gives (seen k) (samples k)) :
    SamplesAlone seen ↔ ∀ k, Covered samples k := by
  constructor
  · intro alone k row last
    cases held_ : held samples k (side k) ((samples (k + 1)).net.interfaces.length - 1) with
    | none => exact Or.inr (unfilledShows gives alone last held_)
    | some old => exact Or.inl ((lastFilled last).mp (by rw [held_]; rfl))
  · intro covered l l' closed closed' thiz k
    obtain ⟨m,ran,published,_⟩ := passesTracked gives closed thiz k
    obtain ⟨m',ran',published',_⟩ := passesTracked gives closed' thiz k
    refine ⟨m,m',ran,ran',?_⟩
    rw [published, published']
    exact coveredOutput covered l l' thiz k

theorem risingAlone : SamplesAlone (seenOf risingAt) := by
  refine (samplesAlone (seenGives risingAt)).mpr ?_
  intro k row _
  exact Or.inl ⟨k,Nat.le_refl k,Or.inr rfl,Nat.le_refl 1⟩

theorem staleStops {seen : Seen} {s : Sample} (gives : Gives seen s) {l : Locals} (thiz : PrivInfo)
    (flag : (l.proc .stat).readThisInterval = 1) (lines : (l.proc .stat).lines = 0)
    (line : (l.proc .stat).line = []) : enter seen (enteredWith l thiz) = .error .nullDeref := by
  have net := vmpProcNetRead gives.opens gives.net (g := Statics.initial) (by decide) systemInterfaceStat
    {l.sysData false with time := seen.clock}
  have count (g : Statics) : getCpuCnt seen.files g (procInit l.proc .stat) = .ok (g,procInit l.proc .stat,0) := by
    simp only [getCpuCnt, procRead, procInit, flag, if_true, lines]
    rfl
  have text : (procInit l.proc .stat).text 0 5 = .error .nullDeref := by
    simp only [NmonProc.text, procInit, line]
    rfl
  unfold enter enteredWith
  simp only [net, count, bind, Except.bind, procCpu, text]
  rfl

def appearingAt (k : Nat) : Sample :=
  {oneMachine true (1000000 * k) with
    net :=
      { first := ⟨[],by decide,by decide⟩
        second := ⟨[],by decide,by decide⟩
        interfaces := if k = 0 then [] else [oneInterface true]
        few := by split <;> decide }}

def stale : Locals := ⟨fun f => ⟨none,f.filename,0,0,[],[],1⟩,fun _ => zeroData⟩

theorem localsShow :
    (∃ m m', passes (enteredWith (localsWith 0 0) idlePriv) (seenOf appearingAt) 1 = .ok m ∧
      passes (enteredWith (localsWith 6000 0) idlePriv) (seenOf appearingAt) 1 = .ok m' ∧
      m.thiz.uplink = .per 5096 1000000 ∧ m'.thiz.uplink = .zero) ∧
    ¬ SamplesAlone (seenOf appearingAt) ∧
    passes (enteredWith stale idlePriv) (seenOf risingAt) 0 = .error .nullDeref := by
  have gives := seenGives appearingAt
  refine ⟨?_,?_,staleStops (seenGives risingAt 0) idlePriv rfl rfl rfl⟩
  · obtain ⟨m,ran,published,_⟩ := passesTracked gives (localsClosed 0 0) idlePriv 1
    obtain ⟨m',ran',published',_⟩ := passesTracked gives (localsClosed 6000 0) idlePriv 1
    refine ⟨m,m',ran,ran',?_,?_⟩
    · rw [published]
      rfl
    · rw [published']
      rfl
  · intro alone
    have last : (appearingAt (0 + 1)).net.interfaces.getLast? = some (oneInterface true) := rfl
    have zero := unfilledShows gives alone last rfl
    exact absurd zero.2.1 (by decide)

end VmpRl.LoadIndependence
