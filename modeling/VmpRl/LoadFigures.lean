import Mathlib.Algebra.Order.Field.Basic
import Mathlib.Tactic.Linarith
import Mathlib.Tactic.NormNum
import VmpRl.LoadInterfaces

/-! The figures that the other threads read, as rationals: where a divisor is zero there is none, and the sum
of the CPU times is one of ints. -/
namespace VmpRl.LoadFigures
open Octets CRuntime Nmon ProcFiles NmonNet NmonLines NmonStat LoadSystem LoadIndependence LoadInterfaces

def divided (a b : ℚ) : Option ℚ := if b = 0 then none else some (a / b)

def value (r : Rate) : Option ℚ := match double r with
  | .number v => some v
  | _ => none

def usage (cpuIdle : Int × Int) : Option ℚ := (divided cpuIdle.1 cpuIdle.2).map (fun idle => idle * 100)

def loadSystemIntervalSet (p : Option PrivInfo) (interval : Int) : Int × Option PrivInfo := match p with
  | none => (-1,none)
  | some thiz => (0,some {thiz with interval := interval})

def lsUplinkGet : Option PrivInfo → Option ℚ
  | none => some 0
  | some thiz => value thiz.uplink

def lsDownlinkGet : Option PrivInfo → Option ℚ
  | none => some 0
  | some thiz => value thiz.downlink

def lsCpuGet : Option PrivInfo → Option ℚ
  | none => some 0
  | some thiz => (usage thiz.cpuIdle).map (fun idle => 100 - idle)

def inInt (n : Int) : Option Int := if -(2 ^ 31) ≤ n ∧ n < 2 ^ 31 then some n else none

def intSum (r : Report) : Option Int := do
  let sum ← inInt (r.cpuIdle + r.cpuUser)
  let sum ← inInt (sum + r.cpuSys)
  let sum ← inInt (sum + r.cpuWait)
  inInt (sum + r.cpuSteal)

def elapsedOf (s t : Sample) (i : Nat) : Int := t.stat.total.nth i - s.stat.total.nth i

def cpuTime (s t : Sample) : Int :=
  elapsedOf s t 3 + (elapsedOf s t 0 + elapsedOf s t 1) + (elapsedOf s t 2 + elapsedOf s t 5 + elapsedOf s t 6) +
    elapsedOf s t 4 + elapsedOf s t 7

def Counting (s t : Sample) : Prop := ∀ i, s.stat.total.nth i ≤ t.stat.total.nth i

def Unsigned (figure : Option ℚ) : Prop := ∃ v, figure = some v ∧ 0 ≤ v ∧ v < 2 ^ 64

structure WellDefined (s t : Sample) (r : Report) (thiz : PrivInfo) : Prop where
  cpuUser : r.cpuUser = elapsedOf s t 0 + elapsedOf s t 1
  cpuSys : r.cpuSys = elapsedOf s t 2 + elapsedOf s t 5 + elapsedOf s t 6
  cpuWait : r.cpuWait = elapsedOf s t 4
  cpuIdle : r.cpuIdle = elapsedOf s t 3
  cpuSteal : r.cpuSteal = elapsedOf s t 7
  cpuSum : ∃ sum, intSum r = some sum ∧ sum ≠ 0
  elapsed : t.clock - s.clock ≠ 0
  cpu : ∃ v, lsCpuGet (some thiz) = some v ∧ 0 ≤ v ∧ v ≤ 100
  uplink : Unsigned (lsUplinkGet (some thiz))
  downlink : Unsigned (lsDownlinkGet (some thiz))

/- Bytes within a number of microseconds that give a rate for an unsigned long, or the 0 of IFDELTA. -/
def Moderate : Rate → Prop
  | .zero => True
  | .per bytes elapsed =>
    (0 < elapsed ∧ (bytes : Int) * 1000000 < 2 ^ 64 * 1024 * elapsed) ∨ (elapsed < 0 ∧ bytes = 0)

def ModerateRates (l : Locals) (samples : Nat → Sample) (k : Nat) (before : PrivInfo) : Prop :=
  match (samples (k + 1)).net.interfaces.getLast? with
  | none => Moderate before.uplink ∧ Moderate before.downlink
  | some row =>
    let slot := oldSlot l samples k ((samples (k + 1)).net.interfaces.length - 1)
    let elapsed := (samples (k + 1)).clock - (samples k).clock
    Moderate (ifDelta slot.ifIbytes (row.counters.nth 0) elapsed) ∧
      Moderate (ifDelta slot.ifObytes (row.counters.nth 8) elapsed)

theorem valueSome {bytes : Nat} {elapsed : Int} (moves : elapsed ≠ 0) :
    value (.per bytes elapsed) = some ((bytes : ℚ) * 1000000 / (1024 * elapsed)) := by
  simp only [value, doublePer moves]

theorem moderatePer (bytes : Nat) (elapsed : Int) :
    Unsigned (value (.per bytes elapsed)) ↔ Moderate (.per bytes elapsed) := by
  unfold Unsigned Moderate
  rcases lt_trichotomy elapsed 0 with back | still | forward
  · have divisor : (1024 * elapsed : ℚ) < 0 := mul_neg_of_pos_of_neg (by norm_num) (Int.cast_lt_zero.mpr back)
    rw [valueSome (Int.ne_of_lt back)]
    constructor
    · intro h
      obtain ⟨v,same,positive,_⟩ := h
      refine Or.inr ⟨back,?_⟩
      by_contra some_
      have bytesPos : (0 : ℚ) < bytes * 1000000 :=
        mul_pos (Nat.cast_pos.mpr (Nat.pos_of_ne_zero some_)) (by norm_num)
      have negative := div_neg_of_pos_of_neg bytesPos divisor
      rw [Option.some.inj same] at negative
      exact absurd positive (not_le.mpr negative)
    · intro h
      have none : bytes = 0 := h.elim (fun h => absurd h.1 (by omega)) (fun h => h.2)
      exact ⟨0,by rw [none]; norm_num,le_refl 0,by norm_num⟩
  · rw [still]
    constructor
    · intro h
      obtain ⟨v,same,_⟩ := h
      rw [value, doubleStill] at same
      split at same
      · rename_i number
        split at number <;> cases number
      · cases same
    · intro h
      omega
  · have divisor : (0 : ℚ) < 1024 * elapsed := mul_pos (by norm_num) (Int.cast_pos.mpr forward)
    have bound : (bytes : ℚ) * 1000000 / (1024 * elapsed) < 2 ^ 64 ↔
        (bytes : Int) * 1000000 < 2 ^ 64 * 1024 * elapsed := by
      rw [div_lt_iff₀ divisor, ← mul_assoc, ← Int.cast_lt (R := ℚ)]
      push_cast
      norm_num
    rw [valueSome (Int.ne_of_gt forward)]
    constructor
    · intro h
      obtain ⟨v,same,_,small⟩ := h
      rw [← Option.some.inj same] at small
      exact Or.inl ⟨forward,bound.mp small⟩
    · intro h
      have small := h.elim (fun h => h.2) (fun h => absurd h.1 (by omega))
      have positive : (0 : ℚ) ≤ bytes * 1000000 := mul_nonneg (Nat.cast_nonneg bytes) (by norm_num)
      exact ⟨_,rfl,div_nonneg positive (le_of_lt divisor),bound.mpr small⟩

theorem moderateExactly (r : Rate) : Unsigned (value r) ↔ Moderate r := by
  cases r with
  | zero => exact ⟨fun _ => trivial,fun _ => ⟨0,rfl,le_refl 0,by norm_num⟩⟩
  | per bytes elapsed => exact moderatePer bytes elapsed

theorem inIntSome {n : Int} (low : -(2 ^ 31) ≤ n) (high : n < 2 ^ 31) : inInt n = some n := if_pos ⟨low,high⟩

theorem inIntEnds {n m : Int} (h : inInt n = some m) : m = n ∧ -(2 ^ 31) ≤ n ∧ n < 2 ^ 31 := by
  unfold inInt at h
  split at h
  · cases Option.some.inj h
    exact ⟨rfl,‹_›⟩
  · cases h

theorem intSumEnds {r : Report} {sum : Int} (h : intSum r = some sum) : sum = r.cpuSum ∧ sum < 2 ^ 31 := by
  unfold intSum at h
  simp only [bind, Option.bind_eq_some_iff] at h
  obtain ⟨a,first,b,second,c,third,last⟩ := h
  obtain ⟨rfl,_,_⟩ := inIntEnds first
  obtain ⟨rfl,_,_⟩ := inIntEnds second
  obtain ⟨rfl,_,_⟩ := inIntEnds third
  obtain ⟨rfl,_,high⟩ := inIntEnds last
  exact ⟨rfl,high⟩

theorem toIntExact {n : Int} (low : 0 ≤ n) (high : n < 2 ^ 31) : toInt n = n := by
  unfold toInt
  rw [Int.bmod_def]
  omega

theorem elapsedCounting {s t : Sample} (counting : Counting s t) (i : Nat) : 0 ≤ elapsedOf s t i := by
  have more := counting i
  unfold elapsedOf
  omega

theorem cpuParts {s t : Sample} (counting : Counting s t) :
    (0 ≤ elapsedOf s t 0 ∧ 0 ≤ elapsedOf s t 1 ∧ 0 ≤ elapsedOf s t 2 ∧ 0 ≤ elapsedOf s t 3 ∧
      0 ≤ elapsedOf s t 4 ∧ 0 ≤ elapsedOf s t 5 ∧ 0 ≤ elapsedOf s t 6 ∧ 0 ≤ elapsedOf s t 7) ∧
    cpuTime s t = elapsedOf s t 3 + (elapsedOf s t 0 + elapsedOf s t 1) +
      (elapsedOf s t 2 + elapsedOf s t 5 + elapsedOf s t 6) + elapsedOf s t 4 + elapsedOf s t 7 := by
  have positive := elapsedCounting counting
  exact ⟨⟨positive 0,positive 1,positive 2,positive 3,positive 4,positive 5,positive 6,positive 7⟩,rfl⟩

theorem reportExact {s t : Sample} {rates : List (Rate × Rate)} {r : Report} (counting : Counting s t)
    (report : r = {between s t with rates := rates}) (small : cpuTime s t < 2 ^ 31) :
    r.cpuUser = elapsedOf s t 0 + elapsedOf s t 1 ∧
    r.cpuSys = elapsedOf s t 2 + elapsedOf s t 5 + elapsedOf s t 6 ∧
    r.cpuWait = elapsedOf s t 4 ∧ r.cpuIdle = elapsedOf s t 3 ∧ r.cpuSteal = elapsedOf s t 7 := by
  obtain ⟨positive,time⟩ := cpuParts counting
  rw [report]
  refine ⟨?_,?_,?_,?_,?_⟩
  · exact toIntExact (n := elapsedOf s t 0 + elapsedOf s t 1) (by omega) (by omega)
  · exact toIntExact (n := elapsedOf s t 2 + elapsedOf s t 5 + elapsedOf s t 6) (by omega) (by omega)
  · exact toIntExact (n := elapsedOf s t 4) (by omega) (by omega)
  · exact toIntExact (n := elapsedOf s t 3) (by omega) (by omega)
  · exact toIntExact (n := elapsedOf s t 7) (by omega) (by omega)

theorem usageBounded {idle sum : Int} (positive : 0 ≤ idle) (part : idle ≤ sum) (divisor : 0 < sum) :
    ∃ v, (usage (idle,sum)).map (fun idle => 100 - idle) = some v ∧ 0 ≤ v ∧ v ≤ 100 := by
  have sumPos : (0 : ℚ) < sum := Int.cast_pos.mpr divisor
  have low : (0 : ℚ) ≤ idle / sum := div_nonneg (Int.cast_nonneg positive) (le_of_lt sumPos)
  have high : (idle : ℚ) / sum ≤ 1 := (div_le_one sumPos).mpr (Int.cast_le.mpr part)
  refine ⟨100 - (idle : ℚ) / sum * 100,?_,by linarith,by linarith⟩
  simp only [usage, divided, if_neg (ne_of_gt sumPos), Option.map_some]

theorem cpuSumExact {s t : Sample} {r : Report}
    (exact_ : r.cpuUser = elapsedOf s t 0 + elapsedOf s t 1 ∧
      r.cpuSys = elapsedOf s t 2 + elapsedOf s t 5 + elapsedOf s t 6 ∧
      r.cpuWait = elapsedOf s t 4 ∧ r.cpuIdle = elapsedOf s t 3 ∧ r.cpuSteal = elapsedOf s t 7) :
    r.cpuSum = cpuTime s t := by
  obtain ⟨user,sys,wait,idle,steal⟩ := exact_
  rw [Report.cpuSum, user, sys, wait, idle, steal]
  rfl

theorem ratesModerate {l : Locals} {samples : Nat → Sample} {k : Nat} {before after : PrivInfo} {r : Report}
    {mem : MemStat} (report : r.rates = ratesSeen l samples k) (published : after = before.publish r mem) :
    (Unsigned (lsUplinkGet (some after)) ∧ Unsigned (lsDownlinkGet (some after))) ↔
      ModerateRates l samples k before := by
  rw [published]
  unfold ModerateRates lsUplinkGet lsDownlinkGet PrivInfo.publish
  simp only [report]
  cases last : (samples (k + 1)).net.interfaces.getLast? with
  | none =>
    have none : ratesSeen l samples k = [] := by
      rw [ratesSeen, List.getLast?_eq_none_iff.mp last]
      rfl
    simp only [none, List.getLast?_nil, Option.map_none, Option.getD_none]
    exact and_congr (moderateExactly _) (moderateExactly _)
  | some row =>
    simp only [lastRate l last, Option.map_some, Option.getD_some]
    exact and_congr (moderateExactly _) (moderateExactly _)

/- Some CPU time has passed, less than 2^31 jiffies, and the clock has moved; where it was set back, the last
interface has nothing to show. -/
def Regular (l : Locals) (samples : Nat → Sample) (k : Nat) (before : PrivInfo) : Prop :=
  0 < cpuTime (samples k) (samples (k + 1)) ∧ cpuTime (samples k) (samples (k + 1)) < 2 ^ 31 ∧
  (samples k).clock ≠ (samples (k + 1)).clock ∧ ModerateRates l samples k before

theorem regularExactly {l : Locals} {samples : Nat → Sample} {k : Nat} {before after : PrivInfo} {r : Report}
    {mem : MemStat} (counting : Counting (samples k) (samples (k + 1)))
    (report : r = {between (samples k) (samples (k + 1)) with rates := ratesSeen l samples k})
    (published : after = before.publish r mem) :
    WellDefined (samples k) (samples (k + 1)) r after ↔ Regular l samples k before := by
  obtain ⟨positive,time⟩ := cpuParts counting
  have seen : r.rates = ratesSeen l samples k := by rw [report]
  have rates := ratesModerate seen published
  constructor
  · intro w
    obtain ⟨sum,counted,notZero⟩ := w.cpuSum
    obtain ⟨same,small⟩ := intSumEnds counted
    rw [cpuSumExact ⟨w.cpuUser,w.cpuSys,w.cpuWait,w.cpuIdle,w.cpuSteal⟩] at same
    refine ⟨by omega,by omega,?_,rates.mp ⟨w.uplink,w.downlink⟩⟩
    intro still
    exact w.elapsed (by omega)
  · intro regular
    obtain ⟨some_,small,clock,moderate⟩ := regular
    have exact_ := reportExact counting report small
    have sum := cpuSumExact exact_
    obtain ⟨user,sys,wait,idle,steal⟩ := exact_
    have parts : intSum r = some (cpuTime (samples k) (samples (k + 1))) := by
      unfold intSum
      rw [user, sys, wait, idle, steal, inIntSome (by omega) (by omega)]
      dsimp only [bind, Option.bind]
      rw [inIntSome (by omega) (by omega)]
      dsimp only
      rw [inIntSome (by omega) (by omega)]
      dsimp only
      rw [inIntSome (by omega) (by omega)]
      rfl
    obtain ⟨up,down⟩ := rates.mpr moderate
    refine ⟨user,sys,wait,idle,steal,⟨_,parts,by omega⟩,by omega,?_,up,down⟩
    rw [published]
    show ∃ v, (usage (r.cpuIdle,r.cpuSum)).map _ = some v ∧ _
    rw [idle, sum]
    exact usageBounded (elapsedCounting counting 3) (by omega) some_

def FiguresDefined (l : Locals) (samples : Nat → Sample) (seen : Nat → Seen) (thiz : PrivInfo) (k : Nat)
    (interval : Int) : Prop :=
  ∃ m thiz' next, passes (enteredWith l thiz) seen k = .ok m ∧
    loadSystemIntervalSet (some m.thiz) interval = (0,some thiz') ∧
    LoadSystem.pass (seen (k + 1)) {m with thiz := thiz'} = .ok next ∧
    WellDefined (samples k) (samples (k + 1)) next.report next.thiz

theorem figuresWellDefined {samples : Nat → Sample} {seen : Nat → Seen} (gives : ∀ j, Gives (seen j) (samples j))
    {l : Locals} (closed : Closed l) (thiz : PrivInfo) (k : Nat) (interval : Int)
    (counting : Counting (samples k) (samples (k + 1))) :
    FiguresDefined l samples seen thiz k interval ↔ Regular l samples k (publishedAt l samples thiz k) := by
  obtain ⟨m,ran,published,t⟩ := passesTracked gives closed thiz k
  have tracked : Tracked l samples {m with thiz := {m.thiz with interval := interval}} k :=
    ⟨t.which,t.time,t.total,t.slots,t.stat,t.meminfo,t.net,t.settled⟩
  obtain ⟨next,mem,passed,after,report⟩ := passSeen (gives (k + 1)) tracked
  have exactly := regularExactly counting report after
  have same : Regular l samples k {m.thiz with interval := interval} ↔
      Regular l samples k (publishedAt l samples thiz k) := by
    rw [published]
    exact Iff.rfl
  constructor
  · intro defined
    obtain ⟨_,_,_,again,interval,passedAgain,w⟩ := defined
    rw [ran] at again
    cases Except.ok.inj again
    cases interval
    rw [passed] at passedAgain
    cases Except.ok.inj passedAgain
    exact same.mp (exactly.mp w)
  · intro regular
    exact ⟨m,_,next,ran,rfl,passed,exactly.mpr (same.mpr regular)⟩

theorem secondDefined : FiguresDefined (localsWith 0 0) risingAt (seenOf risingAt) idlePriv 0 5 := by
  refine (figuresWellDefined (seenGives risingAt) (localsClosed 0 0) idlePriv 0 5 ?_).mpr ⟨?_,?_,?_,?_⟩
  · intro i
    rcases Nat.lt_or_ge i 10 with inside | outside
    · have all : ∀ i < 10, (risingAt 0).stat.total.nth i ≤ (risingAt 1).stat.total.nth i := by decide
      exact all i inside
    · have none : (risingAt 0).stat.total.nth i = 0 := List.getD_eq_default _ _ outside
      rw [none]
      exact Nat.zero_le _
  · decide
  · decide
  · decide
  · exact ⟨Or.inl (by decide),Or.inl (by decide)⟩

theorem clockStill : ¬ FiguresDefined (localsWith 0 0) (fun k => oneMachine (k != 0) 0)
    (seenOf (fun k => oneMachine (k != 0) 0)) idlePriv 0 1 := by
  intro defined
  obtain ⟨_,_,_,_,_,_,w⟩ := defined
  exact w.elapsed rfl

end VmpRl.LoadFigures
