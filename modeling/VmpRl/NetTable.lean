import VmpRl.NmonNet

/-! `/proc/net/dev` with any number of interfaces: `vmp_proc_net` hands over the first 32 of
them, in every call that reads a file. -/
namespace VmpRl.NetTable
open Octets Text CRuntime Nmon ProcFiles NmonNet

structure DevFile where
  first : Header
  second : Header
  interfaces : List Interface

def DevFile.text (file : DevFile) : Bytes :=
  unlines ([file.first.text,file.second.text] ++ file.interfaces.map Interface.text)

inductive Parsed : Statics → Prop where
  | first (g : Statics) (closed : g.netFp = .unset) : Parsed g
  | later {σ : Type} (files : Files) (g next : Statics) (reread : Bool) (proc : σ → List NetStat → σ) (ctx after : σ)
      (count : Nat) (before : Parsed g) (opens : files.opens "/proc/net/dev" = true)
      (ran : vmpProcNet files g reread proc ctx = .ok (next,after,count)) : Parsed next

theorem netLinesGo {files : Files} {g : Statics} (usable : g.netFp ≠ .null)
    (opens : files.opens "/proc/net/dev" = true) {σ : Type} {reread : Bool} {proc : σ → List NetStat → σ}
    {ctx : σ} {next : Statics} {after : σ} {count : Nat}
    (ran : vmpProcNet files g reread proc ctx = .ok (next,after,count)) :
    next.netFp = if reread then .unset else .opened := by
  unfold vmpProcNet at ran
  rw [if_neg usable, if_neg (by simp [opens])] at ran
  dsimp only at ran
  split at ran
  · cases Except.ok.inj ran
    rfl
  · split at ran
    · cases Except.ok.inj ran
      rfl
    · rename_i rest _
      cases lines : netLines vmpNetmax rest with
      | error stop =>
        rw [lines] at ran
        cases ran
      | ok ifnets =>
        rw [lines] at ran
        cases Except.ok.inj ran
        rfl

theorem parsedUsable {g : Statics} (parsed : Parsed g) : g.netFp ≠ .null := by
  induction parsed with
  | first g closed =>
    rw [closed]
    decide
  | later files g next reread proc ctx after count before opens ran ih =>
    rw [netLinesGo ih opens ran]
    cases reread with
    | true => decide
    | false => decide

theorem interfacesParsed {σ : Type} {g : Statics} (parsed : Parsed g) {files : Files}
    (opens : files.opens "/proc/net/dev" = true) {file : DevFile} (there : files.contents "/proc/net/dev" = file.text)
    (reread : Bool) (proc : σ → List NetStat → σ) (ctx : σ) :
    ∃ next, vmpProcNet files g reread proc ctx =
      .ok (next,proc ctx ((file.interfaces.take 32).map netStat),min file.interfaces.length 32) := by
  have usable := parsedUsable parsed
  have shape : file.text = file.first.text ++ 10 :: (file.second.text ++ 10 ::
      unlines (file.interfaces.map Interface.text)) := by
    simp [DevFile.text, unlines]
  have first := fgetsLine 1024 file.first.whole
    (file.second.text ++ 10 :: unlines (file.interfaces.map Interface.text)) file.first.short
  have second := fgetsLine 1024 file.second.whole
    (unlines (file.interfaces.map Interface.text)) file.second.short
  have rows := netLinesTake file.interfaces vmpNetmax
  have count : ((file.interfaces.take vmpNetmax).map netStat).length = min file.interfaces.length 32 := by
    rw [List.length_map, List.length_take, Nat.min_comm]
    rfl
  unfold vmpProcNet
  rw [if_neg usable, if_neg (by simp [opens]), there, shape]
  simp only [first, second, rows, bind, Except.bind, count]
  exact ⟨_,rfl⟩

def portName (k : Nat) : Bytes := ascii "eth" ++ [UInt8.ofNat (48 + k / 10),UInt8.ofNat (48 + k % 10)]

def portCells (k : Nat) : List (Nat × Nat) :=
  [(0,1956 + 3 * k),(5,30 + k),(1,k % 3),(1,k % 2),(1,0),(1,0),(1,0),(1,k),(1,97812 + 5 * k),(1,41 + k),(1,k % 5),(1,0),
    (1,0),(1,0),(1,0),(2,0)]

theorem portSpaced : ∀ k < 40, Spaced (portCells k) := by unfold Spaced; decide +kernel
theorem portBounded : ∀ k < 40, ∀ cell ∈ portCells k, cell.2 < 2 ^ 64 := by decide +kernel
theorem portPlain : ∀ k < 40, ∀ c ∈ portName k, isSpace c = false ∧ c ≠ 58 ∧ c ≠ 0 := by decide +kernel
theorem portNamed : ∀ k < 40, (portName k).length < 16 := by decide +kernel
theorem portShort : ∀ k < 40, (blanks 2 ++ (portName k ++ 58 :: cells (portCells k))).length < 1023 := by decide +kernel

def port (k : Fin 40) : Interface :=
  ⟨2,portName k,⟨portCells k,rfl,portSpaced k k.isLt,portBounded k k.isLt⟩,List.cons_ne_nil _ _,
    portNamed k k.isLt,portPlain k k.isLt,portShort k k.isLt⟩

def ports : List Interface := (List.finRange 40).map port

theorem emptyShort : ([] : Bytes).length < 1023 := Nat.lt_of_sub_eq_succ rfl

def emptyHeader : Header := ⟨[],List.not_mem_nil,emptyShort⟩

def manyFiles : Files where
  opens := fun _ => true
  contents := fun _ => (DevFile.mk emptyHeader emptyHeader ports).text

theorem manyParsed : ∃ next, vmpProcNet manyFiles .initial true (fun _ ifnets => ifnets) [] =
      .ok (next,(ports.take 32).map netStat,32) ∧
    ((ports.take 32).map netStat).map (fun s => (s.ifName,s.ifIbytes,s.ifObytes)) =
      (List.range 32).map (fun k => (portName k,1956 + 3 * k,97812 + 5 * k)) := by
  have opens : manyFiles.opens "/proc/net/dev" = true := rfl
  have there : manyFiles.contents "/proc/net/dev" = (DevFile.mk emptyHeader emptyHeader ports).text := rfl
  obtain ⟨next,ran⟩ := interfacesParsed (Parsed.first .initial rfl) opens there true (fun _ ifnets => ifnets) []
  have all : min ports.length 32 = 32 := by decide +kernel
  rw [all] at ran
  exact ⟨next,ran,by decide +kernel⟩

def namedFiles (name : Bytes) : Files where
  opens := fun _ => true
  contents := fun _ => ascii "h\nh\n " ++ (name ++ ascii ":1 2 3 4 5 6 7 8 9 10 11 12 13 14 15 16\n")

def namesRead (name : Bytes) : Run (List (Bytes × Nat)) :=
  (vmpProcNet (namedFiles name) .initial false (fun _ ifnets => ifnets) []).map
    (fun r => r.2.1.map (fun s => (s.ifName,s.ifIbytes)))

/- Neither a carriage return nor a NUL is blank, colon or newline; each ends the name for `sscanf`, and what
follows it is no number. -/
theorem nameEnded : (∀ c ∈ [97,13,98,0,(98 : UInt8)], c ≠ 32 ∧ c ≠ 58 ∧ c ≠ 10) ∧
    namesRead [97,98] = .ok [([97,98],1)] ∧ namesRead [97,13,98] = .ok [([97],0)] ∧
    namesRead [97,0,98] = .ok [([97],0)] := by
  decide +kernel

end VmpRl.NetTable
