import Mathlib.Tactic.Linarith
import VmpRl.LoadIndependence

/-! The rates of several interfaces. The loop over them keeps only the last one's, and it compares them by
their place in the two buffers. -/
namespace VmpRl.LoadInterfaces
open Octets Text CRuntime Nmon ProcFiles NmonNet NmonLines LoadSystem LoadIndependence

def received (rows : Interface × Interface) : Nat := rows.2.counters.nth 0 - rows.1.counters.nth 0
def sent (rows : Interface × Interface) : Nat := rows.2.counters.nth 8 - rows.1.counters.nth 8

def paired (s t : Sample) : List (Interface × Interface) := s.net.interfaces.zip t.net.interfaces

def rateBetween (s t : Sample) (rows : Interface × Interface) : Rate × Rate :=
  (ifDelta (rows.1.counters.nth 0) (rows.2.counters.nth 0) (t.clock - s.clock),
   ifDelta (rows.1.counters.nth 8) (rows.2.counters.nth 8) (t.clock - s.clock))

def uplinkBetween (s t : Sample) (rows : Interface × Interface) : Double := double (rateBetween s t rows).1
def downlinkBetween (s t : Sample) (rows : Interface × Interface) : Double := double (rateBetween s t rows).2

def Double.add : Double → Double → Double
  | .number a, .number b => .number (a + b)
  | .nan, _ => .nan
  | _, .nan => .nan
  | _, _ => .infinity

def total (doubles : List Double) : Double := doubles.foldr Double.add (.number 0)

def SameInterfaces (s t : Sample) : Prop :=
  t.net.interfaces.map Interface.name = s.net.interfaces.map Interface.name

theorem sameLength {s t : Sample} (same : SameInterfaces s t) :
    t.net.interfaces.length = s.net.interfaces.length := by
  have names := congrArg List.length same
  simpa using names

theorem pairedLength {s t : Sample} (even : t.net.interfaces.length = s.net.interfaces.length) :
    (paired s t).length = t.net.interfaces.length := by
  unfold paired
  rw [List.length_zip, even, Nat.min_self]

theorem heldNow (samples : Nat → Sample) (k : Nat) {i : Nat} (inside : i < (samples k).net.interfaces.length) :
    held samples k (side k) i = rowAt (samples k) i := by
  obtain ⟨row,there⟩ := Option.isSome_iff_exists.mp ((rowFilled (samples k) i).mpr inside)
  cases k with
  | zero => rfl
  | succ k =>
    unfold held
    rw [if_pos rfl, there]
    rfl

theorem oldSlotNow (l : Locals) (samples : Nat → Sample) (k : Nat) {i : Nat} {row : Interface}
    (there : (samples k).net.interfaces[i]? = some row) : oldSlot l samples k i = netStat row := by
  unfold oldSlot
  rw [heldNow samples k (List.getElem?_eq_some_iff.mp there).1, rowAt, there]
  rfl

theorem ratesPaired (l : Locals) {samples : Nat → Sample} {k : Nat}
    (even : (samples (k + 1)).net.interfaces.length = (samples k).net.interfaces.length) :
    ratesSeen l samples k =
      (paired (samples k) (samples (k + 1))).map (rateBetween (samples k) (samples (k + 1))) := by
  unfold ratesSeen paired
  apply List.ext_getElem
  · simp [even]
  · intro i inside _
    have newInside : i < (samples (k + 1)).net.interfaces.length := by simpa using inside
    have slot := oldSlotNow l samples k (List.getElem?_eq_getElem (even ▸ newInside))
    simp only [List.getElem_mapIdx, List.getElem_map, List.getElem_zip, slot, netStat, rateBetween]

def Publishes (samples : Nat → Sample) (k : Nat) (rate : Double × Double) : Prop :=
  ∀ l, Closed l → ∀ thiz (seen : Nat → Seen), (∀ j, Gives (seen j) (samples j)) →
    ∃ m, passes (enteredWith l thiz) seen (k + 1) = .ok m ∧ (double m.thiz.uplink,double m.thiz.downlink) = rate

theorem publishesLast {samples : Nat → Sample} {k : Nat}
    (even : (samples (k + 1)).net.interfaces.length = (samples k).net.interfaces.length)
    {rows : Interface × Interface} (last : (paired (samples k) (samples (k + 1))).getLast? = some rows)
    (rate : Double × Double) :
    Publishes samples k rate ↔ rate = (uplinkBetween (samples k) (samples (k + 1)) rows,
      downlinkBetween (samples k) (samples (k + 1)) rows) := by
  have runs (l : Locals) (closed : Closed l) (thiz : PrivInfo) {seen : Nat → Seen}
      (gives : ∀ j, Gives (seen j) (samples j)) : ∃ m, passes (enteredWith l thiz) seen (k + 1) = .ok m ∧
        (double m.thiz.uplink,double m.thiz.downlink) = (uplinkBetween (samples k) (samples (k + 1)) rows,
          downlinkBetween (samples k) (samples (k + 1)) rows) := by
    obtain ⟨m,ran,published,_⟩ := passesTracked gives closed thiz (k + 1)
    refine ⟨m,ran,?_⟩
    rw [published]
    simp only [publishedAt, ratesPaired l even, List.getLast?_map, last]
    rfl
  constructor
  · intro publishes
    obtain ⟨m,ran,read⟩ := publishes _ (localsClosed 0 0) idlePriv (seenOf samples) (seenGives samples)
    obtain ⟨_,again,expected⟩ := runs _ (localsClosed 0 0) idlePriv (seenGives samples)
    rw [ran] at again
    cases Except.ok.inj again
    exact read.symm.trans expected
  · intro same l closed thiz seen gives
    rw [same]
    exact runs l closed thiz gives

structure Reordered (s t s' t' : Sample) : Prop where
  lines : (paired s' t').Perm (paired s t)
  even : t'.net.interfaces.length = s'.net.interfaces.length
  first : s' = {s with net := {s.net with interfaces := s'.net.interfaces, few := s'.net.few}}
  second : t' = {t with net := {t.net with interfaces := t'.net.interfaces, few := t'.net.few}}

/- The published rates are those of all interfaces together, and reordering the lines of the two files of a pass
changes nothing. -/
structure OrderFree (samples : Nat → Sample) (k : Nat) : Prop where
  counted : Publishes samples k
    (total ((paired (samples k) (samples (k + 1))).map (uplinkBetween (samples k) (samples (k + 1)))),
     total ((paired (samples k) (samples (k + 1))).map (downlinkBetween (samples k) (samples (k + 1)))))
  reordered : ∀ samples' : Nat → Sample, (∀ j, j ≠ k → j ≠ k + 1 → samples' j = samples j) →
    Reordered (samples k) (samples (k + 1)) (samples' k) (samples' (k + 1)) →
    ∀ rate, Publishes samples k rate → Publishes samples' k rate

theorem lastSomewhere {α : Type} {xs : List α} {x : α} (member : x ∈ xs) :
    ∃ ys : List α, ys.Perm xs ∧ ys.getLast? = some x := by
  obtain ⟨before,behind,split⟩ := List.append_of_mem member
  refine ⟨before ++ (behind ++ [x]),?_,?_⟩
  · rw [split]
    exact List.Perm.append_left before (List.perm_append_singleton x behind)
  · rw [← List.append_assoc]
    exact List.getLast?_concat

theorem reorderedTo {samples : Nat → Sample} {k : Nat}
    (even : (samples (k + 1)).net.interfaces.length = (samples k).net.interfaces.length)
    {rows : List (Interface × Interface)} (perm : rows.Perm (paired (samples k) (samples (k + 1)))) :
    ∃ samples' : Nat → Sample, (∀ j, j ≠ k → j ≠ k + 1 → samples' j = samples j) ∧
      Reordered (samples k) (samples (k + 1)) (samples' k) (samples' (k + 1)) ∧
      paired (samples' k) (samples' (k + 1)) = rows ∧
      (samples' k).clock = (samples k).clock ∧ (samples' (k + 1)).clock = (samples (k + 1)).clock := by
  have count : rows.length = (samples (k + 1)).net.interfaces.length := perm.length_eq.trans (pairedLength even)
  have fewOld : (rows.map Prod.fst).length ≤ 32 := by
    rw [List.length_map, count, even]
    exact (samples k).net.few
  have fewNew : (rows.map Prod.snd).length ≤ 32 := by
    rw [List.length_map, count]
    exact (samples (k + 1)).net.few
  let old : Sample := {samples k with net := {(samples k).net with interfaces := rows.map Prod.fst, few := fewOld}}
  let new : Sample :=
    {samples (k + 1) with net := {(samples (k + 1)).net with interfaces := rows.map Prod.snd, few := fewNew}}
  have zipped : paired old new = rows := (List.zip_of_prod rfl rfl).symm
  refine ⟨Function.update (Function.update samples k old) (k + 1) new,?_,?_,?_⟩
  · intro j notFirst notSecond
    rw [Function.update_of_ne notSecond, Function.update_of_ne notFirst]
  · rw [Function.update_self, Function.update_of_ne (Nat.succ_ne_self k).symm, Function.update_self]
    refine ⟨?_,?_,rfl,rfl⟩
    · rw [zipped]
      exact perm
    · show (rows.map Prod.snd).length = (rows.map Prod.fst).length
      rw [List.length_map, List.length_map]
  · rw [Function.update_self, Function.update_of_ne (Nat.succ_ne_self k).symm, Function.update_self]
    exact ⟨zipped,rfl,rfl⟩

def Neutral (d : Double) : Prop := d = .number 0 ∨ d = .infinity ∨ d = .nan

theorem totalCopies (n : Nat) (d : Double) : total (List.replicate (n + 1) d) = match d with
    | .number v => .number ((n + 1) * v)
    | d => d := by
  induction n with
  | zero => cases d <;> simp [total, Double.add]
  | succ n ih =>
    rw [List.replicate_succ]
    show Double.add d (total _) = _
    rw [ih]
    cases d with
    | number v =>
      simp only [Double.add, Double.number.injEq, Nat.cast_add, Nat.cast_one]
      ring
    | infinity => rfl
    | nan => rfl

theorem totalNeutral {n : Nat} {d : Double} (several : 2 ≤ n) : total (List.replicate n d) = d ↔ Neutral d := by
  obtain ⟨m,rfl⟩ : ∃ m, n = m + 1 := ⟨n - 1,by omega⟩
  rw [totalCopies]
  cases d with
  | number v =>
    have more : (1 : ℚ) ≤ m := by exact_mod_cast (by omega : 1 ≤ m)
    simp only [Neutral, Double.number.injEq, reduceCtorEq, or_false]
    constructor
    · intro same
      have rest : (m : ℚ) * v = 0 := by linarith
      exact (mul_eq_zero.mp rest).resolve_left (by linarith)
    · intro zero
      rw [zero, mul_zero]
  | infinity => simp [Neutral]
  | nan => simp [Neutral]

theorem copies {α β : Type} {f : α → β} {xs : List α} {d : β} (same : ∀ x ∈ xs, f x = d) :
    xs.map f = List.replicate xs.length d := by
  rw [List.map_congr_left same, List.map_const']

theorem orderFreeAlike {samples : Nat → Sample} {k : Nat}
    (even : (samples (k + 1)).net.interfaces.length = (samples k).net.interfaces.length)
    {last : Interface × Interface} (isLast : (paired (samples k) (samples (k + 1))).getLast? = some last)
    (free : OrderFree samples k) : ∀ rows ∈ paired (samples k) (samples (k + 1)),
      uplinkBetween (samples k) (samples (k + 1)) rows = uplinkBetween (samples k) (samples (k + 1)) last ∧
      downlinkBetween (samples k) (samples (k + 1)) rows = downlinkBetween (samples k) (samples (k + 1)) last := by
  intro rows member
  obtain ⟨order,perm,ends⟩ := lastSomewhere member
  obtain ⟨samples',others,reordered,zipped,oldClock,newClock⟩ := reorderedTo even perm
  have moved := free.reordered samples' others reordered _ ((publishesLast even isLast _).mpr rfl)
  rw [publishesLast reordered.even (zipped ▸ ends)] at moved
  simp only [uplinkBetween, downlinkBetween, rateBetween, oldClock, newClock, Prod.mk.injEq] at moved ⊢
  exact ⟨moved.1.symm,moved.2.symm⟩

theorem alikeReordered {samples : Nat → Sample} {k : Nat}
    (even : (samples (k + 1)).net.interfaces.length = (samples k).net.interfaces.length)
    {last : Interface × Interface} (isLast : (paired (samples k) (samples (k + 1))).getLast? = some last)
    (alike : ∀ rows ∈ paired (samples k) (samples (k + 1)),
      uplinkBetween (samples k) (samples (k + 1)) rows = uplinkBetween (samples k) (samples (k + 1)) last ∧
      downlinkBetween (samples k) (samples (k + 1)) rows = downlinkBetween (samples k) (samples (k + 1)) last)
    {samples' : Nat → Sample}
    (reordered : Reordered (samples k) (samples (k + 1)) (samples' k) (samples' (k + 1))) {rate : Double × Double}
    (publishes : Publishes samples k rate) : Publishes samples' k rate := by
  have still : paired (samples' k) (samples' (k + 1)) ≠ [] := by
    intro none
    have lines := reordered.lines
    rw [none] at lines
    rw [lines.nil_eq.symm] at isLast
    cases isLast
  obtain ⟨rows,ends⟩ := Option.isSome_iff_exists.mp (List.getLast?_isSome.mpr still)
  have member := reordered.lines.mem_iff.mp (List.mem_of_getLast? ends)
  have oldClock := congrArg Sample.clock reordered.first
  have newClock := congrArg Sample.clock reordered.second
  have same := alike rows member
  simp only [uplinkBetween, downlinkBetween, rateBetween] at same
  rw [(publishesLast even isLast rate).mp publishes, publishesLast reordered.even ends]
  simp only [uplinkBetween, downlinkBetween, rateBetween, oldClock, newClock, same.1, same.2]

/- No counter grew; or the clock stood still while all grew, all stayed, or all fell. -/
def Uniform (lines : List (Interface × Interface)) (i : Nat) (elapsed : Int) : Prop :=
  (elapsed ≠ 0 ∧ ∀ rows ∈ lines, rows.2.counters.nth i ≤ rows.1.counters.nth i) ∨
  (elapsed = 0 ∧ ((∀ rows ∈ lines, rows.2.counters.nth i < rows.1.counters.nth i) ∨
    (∀ rows ∈ lines, rows.2.counters.nth i = rows.1.counters.nth i) ∨
    ∀ rows ∈ lines, rows.1.counters.nth i < rows.2.counters.nth i))

theorem uniformExactly {lines : List (Interface × Interface)} (some_ : lines ≠ []) (i : Nat) (elapsed : Int) :
    Uniform lines i elapsed ↔ ∃ d, Neutral d ∧
      ∀ rows ∈ lines, double (ifDelta (rows.1.counters.nth i) (rows.2.counters.nth i) elapsed) = d := by
  obtain ⟨first,inside⟩ := List.exists_mem_of_ne_nil lines some_
  constructor
  · intro uniform
    rcases uniform with ⟨moves,falls⟩ | ⟨still,fell | stayed | grew⟩
    · refine ⟨.number 0,Or.inl rfl,fun rows member => doubleZero.mpr ?_⟩
      have here := falls rows member
      omega
    · exact ⟨.number 0,Or.inl rfl,fun rows member => doubleZero.mpr (Or.inl (fell rows member))⟩
    · exact ⟨.nan,Or.inr (Or.inr rfl),fun rows member => doubleNan.mpr ⟨still,stayed rows member⟩⟩
    · exact ⟨.infinity,Or.inr (Or.inl rfl),fun rows member => doubleInfinity.mpr ⟨still,grew rows member⟩⟩
  · intro h
    obtain ⟨d,rfl | rfl | rfl,all⟩ := h
    · by_cases still : elapsed = 0
      · refine Or.inr ⟨still,Or.inl fun rows member => ?_⟩
        have here := doubleZero.mp (all rows member)
        omega
      · refine Or.inl ⟨still,fun rows member => ?_⟩
        have here := doubleZero.mp (all rows member)
        omega
    · have still := (doubleInfinity.mp (all first inside)).1
      exact Or.inr ⟨still,Or.inr (Or.inr fun rows member => (doubleInfinity.mp (all rows member)).2)⟩
    · have still := (doubleNan.mp (all first inside)).1
      exact Or.inr ⟨still,Or.inr (Or.inl fun rows member => (doubleNan.mp (all rows member)).2)⟩

theorem totalOne (d : Double) : total (List.replicate 1 d) = d := by
  rw [totalCopies 0 d]
  cases d <;> simp

theorem alikeOrderFree {samples : Nat → Sample} {k : Nat}
    (even : (samples (k + 1)).net.interfaces.length = (samples k).net.interfaces.length)
    {last : Interface × Interface} (isLast : (paired (samples k) (samples (k + 1))).getLast? = some last)
    {up down : Double}
    (ups : ∀ rows ∈ paired (samples k) (samples (k + 1)), uplinkBetween (samples k) (samples (k + 1)) rows = up)
    (downs : ∀ rows ∈ paired (samples k) (samples (k + 1)), downlinkBetween (samples k) (samples (k + 1)) rows = down)
    (sum : total (List.replicate (paired (samples k) (samples (k + 1))).length up) = up ∧
      total (List.replicate (paired (samples k) (samples (k + 1))).length down) = down) : OrderFree samples k := by
  have isUp := ups last (List.mem_of_getLast? isLast)
  have isDown := downs last (List.mem_of_getLast? isLast)
  refine ⟨(publishesLast even isLast _).mpr ?_,fun _ _ reordered _ => alikeReordered even isLast ?_ reordered⟩
  · rw [copies ups, copies downs, sum.1, sum.2, isUp, isDown]
  · intro rows member
    exact ⟨(ups rows member).trans isUp.symm,(downs rows member).trans isDown.symm⟩

/- Exactly with one interface, or where the rates of all are 0, all infinite or all undefined. -/
theorem ratesOrderFree {samples : Nat → Sample} {k : Nat} (same : SameInterfaces (samples k) (samples (k + 1)))
    (some_ : (samples k).net.interfaces ≠ []) :
    OrderFree samples k ↔ (samples k).net.interfaces.length = 1 ∨
      (Uniform (paired (samples k) (samples (k + 1))) 0 ((samples (k + 1)).clock - (samples k).clock) ∧
        Uniform (paired (samples k) (samples (k + 1))) 8 ((samples (k + 1)).clock - (samples k).clock)) := by
  have even := sameLength same
  have count : (paired (samples k) (samples (k + 1))).length = (samples k).net.interfaces.length :=
    (pairedLength even).trans even
  have positive : 0 < (samples k).net.interfaces.length := List.length_pos_of_ne_nil some_
  have nonempty : paired (samples k) (samples (k + 1)) ≠ [] := by
    intro none
    rw [none, List.length_nil] at count
    omega
  obtain ⟨last,isLast⟩ := Option.isSome_iff_exists.mp (List.getLast?_isSome.mpr nonempty)
  constructor
  · intro free
    have alike := orderFreeAlike even isLast free
    have counted := (publishesLast even isLast _).mp free.counted
    rw [copies (fun rows member => (alike rows member).1), copies (fun rows member => (alike rows member).2),
      count] at counted
    by_cases one : (samples k).net.interfaces.length = 1
    · exact Or.inl one
    · have several : 2 ≤ (samples k).net.interfaces.length := by omega
      refine Or.inr ⟨(uniformExactly nonempty 0 _).mpr ⟨_,?_,fun rows member => (alike rows member).1⟩,
        (uniformExactly nonempty 8 _).mpr ⟨_,?_,fun rows member => (alike rows member).2⟩⟩
      · exact (totalNeutral several).mp (congrArg Prod.fst counted)
      · exact (totalNeutral several).mp (congrArg Prod.snd counted)
  · intro h
    by_cases one : (samples k).net.interfaces.length = 1
    · obtain ⟨only,single⟩ := List.length_eq_one_iff.mp (count.trans one)
      have alone {rows : Interface × Interface} (member : rows ∈ paired (samples k) (samples (k + 1))) :
          rows = only := by
        rw [single] at member
        exact List.mem_singleton.mp member
      refine alikeOrderFree even isLast (fun rows member => congrArg (uplinkBetween _ _) (alone member))
        (fun rows member => congrArg (downlinkBetween _ _) (alone member)) ?_
      rw [count, one]
      exact ⟨totalOne _,totalOne _⟩
    · obtain ⟨receives,sends⟩ := h.resolve_left one
      obtain ⟨up,upNeutral,ups⟩ := (uniformExactly nonempty 0 _).mp receives
      obtain ⟨down,downNeutral,downs⟩ := (uniformExactly nonempty 8 _).mp sends
      have several : 2 ≤ (paired (samples k) (samples (k + 1))).length := by omega
      exact alikeOrderFree even isLast ups downs ⟨(totalNeutral several).mpr upNeutral,
        (totalNeutral several).mpr downNeutral⟩

theorem oneOrderFree : OrderFree risingAt 0 :=
  (ratesOrderFree (show SameInterfaces (risingAt 0) (risingAt 1) from rfl) (by simp [risingAt, oneMachine])).mpr
    (Or.inl rfl)

def quietName : Bytes := ascii "lo"

theorem quietNamed : quietName ≠ [] := by decide
theorem quietShort : quietName.length < 16 := by decide
theorem quietPlain : ∀ c ∈ quietName, isSpace c = false ∧ c ≠ 58 ∧ c ≠ 0 := by decide +kernel
theorem quietLine : (blanks 4 ++ (quietName ++ 58 :: cells (oneInterface false).counters.cells)).length < 1023 := by
  decide +kernel

def quietInterface : Interface where
  indent := 4
  name := quietName
  counters := (oneInterface false).counters
  named := quietNamed
  nameShort := quietShort
  namePlain := quietPlain
  short := quietLine

def twoAt (interfaces : Nat → List Interface) (few : ∀ k, (interfaces k).length ≤ 32) (k : Nat) : Sample :=
  {oneMachine (k != 0) (1000000 * k) with
    net := {(oneMachine (k != 0) (1000000 * k)).net with interfaces := interfaces k, few := few k}}

def firstBusy : Nat → Sample :=
  twoAt (fun k => [oneInterface (k != 0),quietInterface]) (fun _ => Nat.le_add_left 2 30)

theorem firstLost : ¬ OrderFree firstBusy 0 := by
  intro free
  have last : (paired (firstBusy 0) (firstBusy 1)).getLast? = some (quietInterface,quietInterface) := rfl
  have lost := (publishesLast (by rfl) last _).mp free.counted
  have sum : total ((paired (firstBusy 0) (firstBusy 1)).map (uplinkBetween (firstBusy 0) (firstBusy 1))) =
      .number 0 := (congrArg Prod.fst lost).trans (by decide +kernel)
  exact absurd sum (by decide +kernel)

theorem passSeen {seen : Seen} {samples : Nat → Sample} {l : Locals} {m : Frame} {k : Nat}
    (gives : Gives seen (samples (k + 1))) (tracked : Tracked l samples m k) :
    ∃ next mem, LoadSystem.pass seen m = .ok next ∧ next.thiz = m.thiz.publish next.report mem ∧
      next.report = {between (samples k) (samples (k + 1)) with rates := ratesSeen l samples k} := by
  obtain ⟨r⟩ := roundRead gives tracked.net (tracked.settled.tuned _) (entryDue tracked.stat)
    (entryDue tracked.meminfo) rfl rfl {m.sysData (side (k + 1)) with time := seen.clock}
  have report := reportSeen l samples (k := k)
    (p := {systemInterfaceStat {m.sysData (side (k + 1)) with time := seen.clock}
      ((samples (k + 1)).net.interfaces.map netStat) with cpuTotal := r.cpuTotal, cpuN := r.cpuN})
    (q := m.sysData (side k)) gives.clock tracked.time r.total tracked.total
    (fun i row there => interfacesRead _ there) (fun i => tracked.slots (side k) i)
  unfold LoadSystem.pass
  simp only [dataSwitched, tracked.which, ← sideNext, r.net, r.count, r.cpu, r.memory, bind, Except.bind, report]
  exact ⟨_,r.mem,rfl,rfl,rfl⟩

theorem passRates {seen : Seen} {samples : Nat → Sample} {l : Locals} {m : Frame} {k : Nat}
    (gives : Gives seen (samples (k + 1))) (tracked : Tracked l samples m k) {next : Frame}
    (ran : LoadSystem.pass seen m = .ok next) : next.report.rates = ratesSeen l samples k := by
  obtain ⟨_,_,again,_,report⟩ := passSeen gives tracked
  rw [ran] at again
  cases Except.ok.inj again
  rw [report]

def byName (s : Sample) (name : Bytes) : Option Interface :=
  s.net.interfaces.find? (fun row => row.name == name)

def deltasByName (s t : Sample) : List (Option (Nat × Nat)) :=
  t.net.interfaces.map (fun row => (byName s row.name).map (fun old => (received (old,row),sent (old,row))))

def SelfCompared (l : Locals) (samples : Nat → Sample) (k : Nat) : Prop :=
  ∀ thiz (seen : Nat → Seen), (∀ j, Gives (seen j) (samples j)) →
    ∃ m, passes (enteredWith l thiz) seen (k + 1) = .ok m ∧
      m.report.rates.map (fun r => some (r.1.bytes,r.2.bytes)) = deltasByName (samples k) (samples (k + 1))

def Serves (new slot own : Nat) : Prop := slot = own ∨ (new ≤ slot ∧ new ≤ own)

def OwnSlots (l : Locals) (samples : Nat → Sample) (k : Nat) : Prop :=
  ∀ i row, (samples (k + 1)).net.interfaces[i]? = some row → ∃ own, byName (samples k) row.name = some own ∧
    Serves (row.counters.nth 0) (oldSlot l samples k i).ifIbytes (own.counters.nth 0) ∧
    Serves (row.counters.nth 8) (oldSlot l samples k i).ifObytes (own.counters.nth 8)

theorem servesExactly (new slot own : Nat) : new - slot = new - own ↔ Serves new slot own := by
  unfold Serves
  omega

theorem selfCompared (l : Locals) (closed : Closed l) (samples : Nat → Sample) (k : Nat) :
    SelfCompared l samples k ↔ OwnSlots l samples k := by
  have runs (thiz : PrivInfo) {seen : Nat → Seen} (gives : ∀ j, Gives (seen j) (samples j)) :
      ∃ m, passes (enteredWith l thiz) seen (k + 1) = .ok m ∧ m.report.rates = ratesSeen l samples k := by
    obtain ⟨m,ran,published,tracked⟩ := passesTracked gives closed thiz k
    obtain ⟨next,passed,_⟩ := passTracked (gives (k + 1)) published tracked
    refine ⟨next,?_,passRates (gives (k + 1)) tracked passed⟩
    unfold passes
    rw [ran]
    exact passed
  have exactly : (ratesSeen l samples k).map (fun r => some (r.1.bytes,r.2.bytes)) =
      deltasByName (samples k) (samples (k + 1)) ↔ OwnSlots l samples k := by
    constructor
    · intro same i row there
      have here := congrArg (fun deltas => deltas[i]?) same
      simp only [ratesSeen, deltasByName, List.getElem?_map, List.getElem?_mapIdx, there, Option.map_some,
        Option.some.injEq, ifDeltaBytes] at here
      obtain ⟨own,found,deltas⟩ := Option.map_eq_some_iff.mp here.symm
      refine ⟨own,found,?_,?_⟩
      · exact (servesExactly _ _ _).mp (congrArg Prod.fst deltas).symm
      · exact (servesExactly _ _ _).mp (congrArg Prod.snd deltas).symm
    · intro slots
      apply List.ext_getElem?
      intro i
      simp only [ratesSeen, deltasByName, List.getElem?_map, List.getElem?_mapIdx]
      cases there : (samples (k + 1)).net.interfaces[i]? with
      | none => rfl
      | some row =>
        obtain ⟨own,found,receives,sends⟩ := slots i row there
        simp only [Option.map_some, found, ifDeltaBytes, received, sent, (servesExactly _ _ _).mpr receives,
          (servesExactly _ _ _).mpr sends]
  constructor
  · intro compared
    obtain ⟨m,ran,deltas⟩ := compared idlePriv (seenOf samples) (seenGives samples)
    obtain ⟨_,again,rates⟩ := runs idlePriv (seenGives samples)
    rw [ran] at again
    cases Except.ok.inj again
    rw [rates] at deltas
    exact exactly.mp deltas
  · intro slots thiz seen gives
    obtain ⟨m,ran,rates⟩ := runs thiz gives
    refine ⟨m,ran,?_⟩
    rw [rates]
    exact exactly.mpr slots

theorem oneSelfCompared : SelfCompared (localsWith 0 0) risingAt 0 := by
  refine (selfCompared (localsWith 0 0) (localsClosed 0 0) risingAt 0).mpr ?_
  intro i row there
  cases i with
  | zero =>
    cases Option.some.inj there
    exact ⟨oneInterface false,rfl,Or.inl rfl,Or.inl rfl⟩
  | succ i => cases there

theorem movedShows : ¬ SelfCompared (localsWith 0 0)
    (twoAt (fun k => if k = 0 then [quietInterface,oneInterface true] else [oneInterface true,quietInterface])
      (fun k => by split <;> exact Nat.le_add_left 2 30)) 0 := by
  intro compared
  obtain ⟨m,ran,deltas⟩ := compared idlePriv _ (seenGives _)
  obtain ⟨before,first,published,tracked⟩ := passesTracked (seenGives _) (localsClosed 0 0) idlePriv 0
  have rates := passRates (seenGives _ 1) tracked (by
    unfold passes at ran
    rw [first] at ran
    exact ran)
  rw [rates] at deltas
  have bytes : (some 4096 : Option Nat) = some 0 :=
    congrArg (fun d : List (Option (Nat × Nat)) => (d.head?.getD none).map Prod.fst) deltas
  exact absurd bytes (by decide)

end VmpRl.LoadInterfaces
