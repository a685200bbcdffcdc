import VmpRl.ProcFiles
import VmpRl.Nmon

/-! `vmp_proc_net` on a file in the kernel's layout: it yields the counters of every
interface, in the order of the file. -/
namespace VmpRl.NmonNet
open Octets Text CRuntime Nmon ProcFiles

theorem stripLeading (n : Nat) (text : Bytes) :
    stripSpaces true (blanks n ++ text) = stripSpaces true text := by
  induction n with
  | zero => rfl
  | succ n ih => exact ih

theorem stripGap {n : Nat} (positive : 1 ≤ n) (text : Bytes) :
    stripSpaces false (blanks n ++ text) = 32 :: stripSpaces true text := by
  obtain ⟨m,rfl⟩ := Nat.exists_eq_add_of_le' positive
  have first : stripSpaces false (blanks (m + 1) ++ text) = 32 :: stripSpaces true (blanks m ++ text) := rfl
  rw [first, stripLeading]

theorem stripPlain {word : Bytes} (plain : ∀ c ∈ word, c ≠ 32 ∧ c ≠ 58) (nonempty : word ≠ [])
    (spaced : Bool) (text : Bytes) :
    stripSpaces spaced (word ++ text) = word ++ stripSpaces false text := by
  induction word generalizing spaced with
  | nil => exact absurd rfl nonempty
  | cons c rest ih =>
    obtain ⟨notBlank,notColon⟩ := plain c List.mem_cons_self
    have step : stripSpaces spaced (c :: (rest ++ text)) = c :: stripSpaces false (rest ++ text) := by
      simp [stripSpaces, notBlank, notColon]
    rw [List.cons_append, step]
    cases rest with
    | nil => rfl
    | cons d others =>
      rw [ih (fun e among => plain e (List.mem_cons_of_mem c among)) (by simp) false]
      rfl

theorem decimalPlain (n : Nat) : ∀ c ∈ decimal n, c ≠ 32 ∧ c ≠ 58 := by
  intro c member
  have digit := decimalDigits n c member
  constructor
  · intro same
    subst same
    exact absurd digit (by decide)
  · intro same
    subst same
    exact absurd digit (by decide)

def single (row : List (Nat × Nat)) : List (Nat × Nat) := row.map (fun cell => (1,cell.2))

theorem singleCons (cell : Nat × Nat) (row : List (Nat × Nat)) (rest : Bytes) :
    cells (single (cell :: row)) ++ rest = 32 :: (decimal cell.2 ++ (cells (single row) ++ rest)) := by
  unfold single
  rw [List.map_cons, cellsCons]
  rfl

theorem stripNumber (n : Nat) (spaced : Bool) (text : Bytes) :
    stripSpaces spaced (decimal n ++ text) = decimal n ++ stripSpaces false text :=
  stripPlain (decimalPlain n) (decimalNonempty n) spaced text

theorem stripCells {row : List (Nat × Nat)} (spaced : ∀ cell ∈ row, 1 ≤ cell.1) :
    stripSpaces false (cells row ++ [10]) = cells (single row) ++ [10] := by
  induction row with
  | nil => rfl
  | cons cell rest ih =>
    have others := ih (fun c among => spaced c (List.mem_cons_of_mem cell among))
    rw [cellsCons, stripGap (spaced cell List.mem_cons_self), stripNumber, others, singleCons]

theorem stripInterface (row : Interface) :
    stripSpaces true (row.text ++ [10]) = row.name ++ (cells (single row.counters.cells) ++ [10]) := by
  have plain : ∀ c ∈ row.name, c ≠ 32 ∧ c ≠ 58 := by
    intro c member
    obtain ⟨notSpace,notColon,_⟩ := row.namePlain c member
    refine ⟨?_,notColon⟩
    intro same
    subst same
    exact absurd notSpace (by decide)
  have colon : ∀ text, stripSpaces false (58 :: text) = 32 :: stripSpaces true text := fun _ => rfl
  have shape : row.text ++ [10] =
      blanks row.indent ++ (row.name ++ (58 :: (cells row.counters.cells ++ [10]))) := by
    simp [Interface.text]
  rw [shape, stripLeading, stripPlain plain row.named, colon]
  have counted := row.counters.counted
  cases numbers : row.counters.cells with
  | nil =>
    rw [numbers] at counted
    contradiction
  | cons cell rest =>
    have spaced : ∀ c ∈ rest, 1 ≤ c.1 := by
      intro c among
      apply row.counters.spaced
      rw [numbers]
      exact among
    rw [cellsCons, stripLeading, stripNumber, stripCells spaced, singleCons]

theorem singleSpaced (row : List (Nat × Nat)) : Spaced (single row) := by
  intro cell member
  obtain ⟨original,_,rfl⟩ := List.mem_map.mp (List.mem_of_mem_tail member)
  exact Nat.le_refl 1

theorem sscanfSingle {α : Type} {convert : Int → α} (embed : Nat → α) {count limit : Nat}
    (row : Columns count limit) (exact : ∀ n : Nat, n < limit → convert n = embed n) {k : Nat}
    (enough : k ≤ count) {rest : Bytes} (stops : Stops rest) :
    sscanf convert k (cells (single row.cells) ++ rest) =
      (row.cells.take k).map (fun cell => embed cell.2) := by
  have length : (single row.cells).length = count := by rw [single, List.length_map, row.counted]
  rw [sscanfCells convert (singleSpaced _) stops (by rw [length]; exact enough), single, ← List.map_take,
    List.map_map]
  apply List.map_congr_left
  intro cell member
  exact exact _ (row.bounded cell (List.mem_of_mem_take member))

def netStat (row : Interface) : NetStat where
  ifName := row.name
  ifIbytes := row.counters.nth 0
  ifIpackets := row.counters.nth 1
  ifIerrs := row.counters.nth 2
  ifIdrop := row.counters.nth 3
  ifIfifo := row.counters.nth 4
  ifIframe := row.counters.nth 5
  ifObytes := row.counters.nth 8
  ifOpackets := row.counters.nth 9
  ifOerrs := row.counters.nth 10
  ifOdrop := row.counters.nth 11
  ifOfifo := row.counters.nth 12
  ifOcolls := row.counters.nth 13
  ifOcarrier := row.counters.nth 14

theorem nthTaken {count limit : Nat} (row : Columns count limit) {i k : Nat} (inside : i < k) :
    ((row.cells.take k).map Prod.snd).getD i 0 = row.nth i := by
  simp [Columns.nth, List.getD_eq_getElem?_getD, inside]

theorem scanName (row : Interface) :
    scanWord (row.name ++ (cells (single row.counters.cells) ++ [10])) =
      some (row.name,cells (single row.counters.cells) ++ [10]) := by
  have counted := row.counters.counted
  cases numbers : row.counters.cells with
  | nil =>
    rw [numbers] at counted
    contradiction
  | cons cell others =>
    rw [singleCons]
    exact scanWordPlain row.named (fun c member => (row.namePlain c member).1) rfl _

theorem netLineRow (row : Interface) :
    netLine (stripSpaces true (row.text ++ [10])) NetStat.zero = .ok (netStat row) := by
  have room : ¬ ifNameSize ≤ row.name.length := by
    have := row.nameShort
    unfold ifNameSize
    omega
  have scanned : sscanf unsignedLong 15 (cells (single row.counters.cells) ++ [10]) =
      (row.counters.cells.take 15).map Prod.snd :=
    sscanfSingle id row.counters (fun n small => unsignedLongExact small) (by decide)
      (stopsCons rfl [])
  unfold netLine
  rw [stripInterface, scanName]
  simp only [if_neg room, scanned, NetStat.zero]
  simp (disch := decide) only [nthTaken]
  rfl

theorem interfaceAvoids (row : Interface) {c : UInt8} (space : c = 10 ∨ c = 0) : c ∉ row.text := by
  intro member
  have outside : c ≠ 32 ∧ c ≠ 58 ∧ isDecimal c = false := by
    rcases space with rfl | rfl
    · decide
    · decide
  rcases List.mem_append.mp member with gap | behind
  · exact outside.1 (List.eq_of_mem_replicate gap)
  · rcases List.mem_append.mp behind with name | numbers
    · obtain ⟨notSpace,_,notNul⟩ := row.namePlain c name
      rcases space with rfl | rfl
      · exact absurd notSpace (by decide)
      · exact notNul rfl
    · rcases List.mem_cons.mp numbers with colon | number
      · exact outside.2.1 colon
      · exact cellsAvoid outside.1 outside.2.2 number

theorem netLinesTake (rows : List Interface) (room : Nat) :
    netLines room (unlines (rows.map Interface.text)) = .ok ((rows.take room).map netStat) := by
  induction rows generalizing room with
  | nil =>
    cases room with
    | zero => rfl
    | succ room => rfl
  | cons row rest ih =>
    cases room with
    | zero => rfl
    | succ room =>
      have shape : unlines ((row :: rest).map Interface.text) =
          row.text ++ 10 :: unlines (rest.map Interface.text) := by
        simp [unlines]
      have read := fgetsLine 1024 (interfaceAvoids row (Or.inl rfl))
        (unlines (rest.map Interface.text)) row.short
      have noNul : (0 : UInt8) ∉ row.text ++ [10] := by
        intro member
        rcases List.mem_append.mp member with text | newline
        · exact interfaceAvoids row (Or.inr rfl) text
        · exact absurd (List.mem_singleton.mp newline) (by decide)
      unfold netLines
      rw [shape, read]
      simp only [cutNoNul noNul, netLineRow, ih room, bind, Except.bind, List.take_succ_cons, List.map_cons]

theorem netLinesRows (rows : List Interface) (room : Nat) (few : rows.length ≤ room) :
    netLines room (unlines (rows.map Interface.text)) = .ok (rows.map netStat) := by
  rw [netLinesTake, List.take_of_length_le few]

theorem vmpProcNetRead {σ : Type} {files : Files} (opens : ∀ name, files.opens name = true)
    {file : NetDev} (there : files.contents "/proc/net/dev" = file.text) {g : Statics} (usable : g.netFp ≠ .null)
    (proc : σ → List NetStat → σ) (ctx : σ) :
    vmpProcNet files g false proc ctx =
      .ok ({g with netFp := .opened},proc ctx (file.interfaces.map netStat),file.interfaces.length) := by
  have shape : file.text = file.first.text ++ 10 :: (file.second.text ++ 10 ::
      unlines (file.interfaces.map Interface.text)) := by
    simp [NetDev.text, unlines]
  have first := fgetsLine 1024 file.first.whole
    (file.second.text ++ 10 :: unlines (file.interfaces.map Interface.text)) file.first.short
  have second := fgetsLine 1024 file.second.whole
    (unlines (file.interfaces.map Interface.text)) file.second.short
  have rows := netLinesRows file.interfaces vmpNetmax file.few
  unfold vmpProcNet
  rw [if_neg usable, if_neg (by simp [opens]), there, shape]
  simp only [first, second, rows, bind, Except.bind, List.length_map]
  rfl

end VmpRl.NmonNet
