import VmpRl.NmonMem

/-! `/proc/meminfo` with any keys: `proc_mem_search` takes the first line that begins with the
key, and the number on it from the first byte below '9'. -/
namespace VmpRl.MemKeys
open Octets Text CRuntime Nmon ProcFiles NmonLines

structure KeyRow where
  key : Bytes
  gap : Bytes
  digits : Bytes
  unit : Bytes
  keyPlain : ∀ c ∈ key, c ≠ 58 ∧ c ≠ 32 ∧ c ≠ 10
  gapBlank : ∀ c ∈ gap, c = 32 ∨ c = 9
  numbered : digits ≠ []
  decimal : ∀ c ∈ digits, isDecimal c = true
  bounded : value digits < 2 ^ 63
  unitPlain : ∀ c ∈ unit, isDecimal c = false ∧ c ≠ 10

def KeyRow.behind (row : KeyRow) : Bytes := row.gap ++ (row.digits ++ row.unit)
def KeyRow.text (row : KeyRow) : Bytes := row.key ++ 58 :: row.behind

structure KeyFile where
  rows : List KeyRow
  apart : (rows.map KeyRow.key).Nodup

def KeyFile.text (file : KeyFile) : Bytes := unlines (file.rows.map KeyRow.text)

def claimed (rows : List KeyRow) (s : Bytes) : Int := match rows.find? (fun row => row.key = s) with
  | some row => value row.digits
  | none => -1

def seen (info : NmonProc) (file : KeyFile) : List KeyRow :=
  file.rows.take (min (procMaxlines - 1) ((file.text.take (room info)).count 10))

/- A tab is a blank in the table, so a key with a tab begins no line. -/
def Begins (s : Bytes) (row : KeyRow) : Prop := 9 ∉ s ∧ s <+: row.key

instance (s : Bytes) (row : KeyRow) : Decidable (Begins s row) := by unfold Begins; infer_instance

def standing (text : Bytes) : Int := atol (text.dropWhile (fun c => !isdigit c))

def shown (row : KeyRow) : Bytes := (cut (detab row.text)).bytes

/- The first row that begins with the key is the row of the key, with a number that does not follow the
colon with a '9'; or no row begins with it and none has it; or the number on the first row that begins
with it happens to be the one of the key. -/
def FoundFirst (rows : List KeyRow) (s : Bytes) : Option KeyRow → Prop
  | none => ∀ row ∈ rows, row.key ≠ s
  | some row =>
    if row.key = s then row.gap ≠ [] ∨ row.digits.head? ≠ some 57
    else standing ((shown row).drop s.length) = claimed rows s

def Found (info : NmonProc) (file : KeyFile) (s : Bytes) : Prop :=
  FoundFirst file.rows s ((seen info file).find? (fun row => decide (Begins s row)))

instance (rows : List KeyRow) (s : Bytes) : ∀ first : Option KeyRow, Decidable (FoundFirst rows s first)
  | none => inferInstanceAs (Decidable (∀ row ∈ rows, row.key ≠ s))
  | some row => inferInstanceAs (Decidable (if row.key = s then row.gap ≠ [] ∨ row.digits.head? ≠ some 57
      else standing ((shown row).drop s.length) = claimed rows s))

instance (info : NmonProc) (file : KeyFile) (s : Bytes) : Decidable (Found info file s) :=
  inferInstanceAs (Decidable (FoundFirst _ _ _))

def SearchKey (s : Bytes) : Prop := ∀ c ∈ s, c ≠ 0 ∧ c ≠ 58 ∧ c ≠ 32 ∧ c ≠ 10

instance (s : Bytes) : Decidable (SearchKey s) := List.decidableBAll _ s

theorem rowWhole (row : KeyRow) : 10 ∉ row.text := by
  intro member
  rcases List.mem_append.mp member with key | rest
  · exact (row.keyPlain 10 key).2.2 rfl
  · rcases List.mem_cons.mp rest with colon | rest
    · exact absurd colon (by decide)
    · rcases List.mem_append.mp rest with gap | rest
      · exact (row.gapBlank 10 gap).elim (by decide) (by decide)
      · rcases List.mem_append.mp rest with digit | unit
        · exact absurd (row.decimal 10 digit) (by decide)
        · exact (row.unitPlain 10 unit).2 rfl

theorem beginsText {s : Bytes} (plain : SearchKey s) (key rest : Bytes) :
    s.isPrefixOf (cut (detab (key ++ 58 :: rest))).bytes = true ↔ 9 ∉ s ∧ s <+: key := by
  induction s generalizing key with
  | nil => simp
  | cons c others ih =>
    obtain ⟨notNul,notColon,notBlank,_⟩ := plain c List.mem_cons_self
    have later := ih (fun d among => plain d (List.mem_cons_of_mem c among))
    cases key with
    | nil =>
      have text : (cut (detab ([] ++ 58 :: rest))).bytes = 58 :: (cut (detab rest)).bytes := rfl
      rw [text]
      simp [List.isPrefixOf, notColon]
    | cons d key =>
      by_cases tab : d = 9
      · have text : (cut (detab (d :: key ++ 58 :: rest))).bytes = 32 :: (cut (detab (key ++ 58 :: rest))).bytes := by
          rw [tab]
          rfl
        rw [text, List.cons_prefix_cons, tab]
        simp only [List.isPrefixOf, beq_false_of_ne notBlank, Bool.false_and, Bool.false_eq_true, false_iff]
        intro h
        exact h.1 (h.2.1 ▸ List.mem_cons_self)
      · have kept : detab (d :: key ++ 58 :: rest) = d :: detab (key ++ 58 :: rest) := by
          show (if d = 9 then 32 else d) :: _ = _
          rw [if_neg tab]
          rfl
        rw [kept, List.cons_prefix_cons]
        by_cases nul : d = 0
        · have text : (cut (d :: detab (key ++ 58 :: rest))).bytes = [] := by
            rw [nul]
            rfl
          rw [text]
          simp only [List.isPrefixOf, Bool.false_eq_true, false_iff]
          intro h
          exact notNul (h.2.1.trans nul)
        · have text : (cut (d :: detab (key ++ 58 :: rest))).bytes = d :: (cut (detab (key ++ 58 :: rest))).bytes := by
            show List.takeWhile _ _ = _
            rw [List.takeWhile_cons_of_pos (by simpa using nul)]
            rfl
          rw [text]
          simp only [List.isPrefixOf, Bool.and_eq_true, beq_iff_eq, later key, List.mem_cons, not_or]
          constructor
          · intro h
            exact ⟨⟨fun same => tab (h.1 ▸ same.symm),h.2.1⟩,h.1,h.2.2⟩
          · intro h
            exact ⟨h.2.1,h.1.2,h.2.2⟩

theorem shownRow {info : NmonProc} {file : KeyFile} {text : Bytes} (all : text = file.text.take (room info))
    {next : NmonProc} (table : Table next text) : next.lines = (seen info file).length ∧
    ∀ (k : Nat) (inside : k < (seen info file).length), next.text k 0 = .ok (shown (seen info file)[k]) := by
  obtain ⟨lines,rows⟩ := tableRow table
  have clean : ∀ l ∈ file.rows.map KeyRow.text, 10 ∉ l := by
    intro l member
    obtain ⟨row,_,rfl⟩ := List.mem_map.mp member
    exact rowWhole row
  have taken := rowsOfTake clean (room info)
  rw [all] at rows lines
  have few : (file.text.take (room info)).count 10 ≤ file.rows.length := by
    rw [← rowsOfCount, KeyFile.text, taken, List.length_take, List.length_map]
    exact Nat.min_le_right _ _
  have size : next.lines = (seen info file).length := by
    rw [lines, seen, List.length_take]
    omega
  refine ⟨size,?_⟩
  intro k inside
  obtain ⟨l,there,read⟩ := rows k (size ▸ inside)
  rw [read]
  rw [KeyFile.text, taken, List.getElem?_take] at there
  split at there
  · rw [List.getElem?_map] at there
    obtain ⟨row,same,rfl⟩ := Option.map_eq_some_iff.mp there
    have found : (seen info file)[k] = row := by
      have : (seen info file)[k]? = some row := by
        rw [seen, List.getElem?_take, if_pos, same]
        rw [seen, List.length_take] at inside
        omega
      rw [List.getElem?_eq_getElem inside] at this
      exact Option.some.inj this
    rw [found]
    rfl
  · cases there

def answer (rows : List KeyRow) (s : Bytes) : Int :=
  match rows.find? (fun row => decide (Begins s row)) with
  | none => -1
  | some row => standing ((shown row).drop s.length)

theorem searchAnswers {info : NmonProc} {rows : List KeyRow}
    (shows : ∀ (k : Nat) (inside : k < rows.length), info.text k 0 = .ok (shown rows[k])) {s : Bytes}
    (plain : SearchKey s) {k n : Nat} (all : k + n = rows.length) :
    searchLines info s (List.range' k n) = .ok (answer (rows.drop k) s) := by
  induction n generalizing k with
  | zero =>
    rw [List.drop_of_length_le (by omega)]
    rfl
  | succ n ih =>
    have inside : k < rows.length := by omega
    have begins : s.isPrefixOf (shown rows[k]) = decide (Begins s rows[k]) := by
      rw [Bool.eq_iff_iff, decide_eq_true_eq]
      exact beginsText plain _ _
    rw [List.range'_succ, searchLines, List.drop_eq_getElem_cons inside]
    simp only [shows k inside, bind, Except.bind, begins, answer, List.find?_cons]
    by_cases first : Begins s rows[k]
    · simp only [first, decide_true, if_true]
      rfl
    · simp only [first, decide_false, Bool.false_eq_true, if_false]
      exact ih (by omega)

theorem procMemSearchAnswers {info : NmonProc} {rows : List KeyRow} (lines : info.lines = rows.length)
    (shows : ∀ (k : Nat) (inside : k < rows.length), info.text k 0 = .ok (shown rows[k])) {s : String}
    (plain : SearchKey (ascii s)) : procMemSearch info s = .ok (answer rows (ascii s)) := by
  unfold procMemSearch
  rw [List.range_eq_range', lines]
  exact searchAnswers shows plain (Nat.zero_add _)

theorem detabGap (row : KeyRow) : detab row.gap = blanks row.gap.length := by
  apply List.eq_replicate_iff.mpr
  refine ⟨List.length_map _,?_⟩
  intro c member
  obtain ⟨d,among,same⟩ := List.mem_map.mp member
  rcases row.gapBlank d among with blank | tab
  · rw [← same, if_neg (by rw [blank]; decide), blank]
  · rw [← same, if_pos tab]

theorem decimalAvoids {digits : Bytes} (decimal : ∀ c ∈ digits, isDecimal c = true) : 9 ∉ digits ∧ 0 ∉ digits :=
  ⟨fun tab => absurd (decimal 9 tab) (by decide),fun nul => absurd (decimal 0 nul) (by decide)⟩

theorem shownBehind {row : KeyRow} (plain : SearchKey row.key) (noTab : 9 ∉ row.key) :
    ∃ tail, (∀ c ∈ tail, isDecimal c = false) ∧
      (shown row).drop row.key.length = 58 :: (blanks row.gap.length ++ (row.digits ++ tail)) := by
  have noNul : 0 ∉ row.key := fun member => (plain 0 member).1 rfl
  obtain ⟨digitTab,digitNul⟩ := decimalAvoids row.decimal
  have gapNul : 0 ∉ blanks row.gap.length := by
    intro member
    exact absurd (List.eq_of_mem_replicate member) (by decide)
  have text : detab row.text =
      row.key ++ ([58] ++ (blanks row.gap.length ++ (row.digits ++ detab row.unit))) := by
    have parts : detab row.text = detab row.key ++ ([58] ++ (detab row.gap ++ (detab row.digits ++ detab row.unit))) := by
      simp [KeyRow.text, KeyRow.behind, detab]
    rw [parts, detabClean noTab, detabClean digitTab, detabGap]
  refine ⟨(cut (detab row.unit)).bytes,?_,?_⟩
  · intro c member
    have inside := List.takeWhile_sublist _ |>.subset member
    obtain ⟨d,among,same⟩ := List.mem_map.mp inside
    rw [← same]
    split
    · rfl
    · exact (row.unitPlain d among).1
  · unfold shown
    rw [text, cutAppend noNul, List.drop_left, cutAppend (by decide), cutAppend gapNul, cutAppend digitNul]
    rfl

theorem atolDigits (gap : Nat) {digits tail : Bytes} (numbered : digits ≠ []) (decimal : ∀ c ∈ digits, isDecimal c = true)
    (plain : ∀ c ∈ tail, isDecimal c = false) : atol (blanks gap ++ (digits ++ tail)) = longLong (value digits) := by
  have stops : Stops tail := fun c first => plain c (List.mem_of_mem_head? first)
  unfold atol
  rw [scanDigits gap numbered decimal stops]

theorem atolNone {text : Bytes} (plain : ∀ c ∈ text, isDecimal c = false) : atol text = 0 := by
  have inside : ∀ c ∈ (sign (text.dropWhile isSpace)).2, isDecimal c = false := by
    intro c member
    apply plain c
    apply (List.dropWhile_sublist isSpace).subset
    generalize text.dropWhile isSpace = rest at member ⊢
    unfold sign at member
    split at member
    · exact List.mem_cons_of_mem _ member
    · exact List.mem_cons_of_mem _ member
    · exact member
  have none : (sign (text.dropWhile isSpace)).2.takeWhile isDecimal = [] := by
    cases rest : (sign (text.dropWhile isSpace)).2 with
    | nil => rfl
    | cons c others =>
      rw [rest] at inside
      rw [List.takeWhile_cons, inside c List.mem_cons_self]
      rfl
  unfold atol scanNumber
  simp only [none, if_true]

theorem valueFirst (digits : Bytes) : value digits < value (57 :: digits) := by
  have larger : ∀ (digits : Bytes) (a b : Nat), a < b →
      digits.foldl (fun n c => n * 10 + (c.toNat - 48)) a < digits.foldl (fun n c => n * 10 + (c.toNat - 48)) b := by
    intro digits
    induction digits with
    | nil => exact fun a b less => less
    | cons c rest ih =>
      intro a b less
      refine ih _ _ ?_
      show a * 10 + (c.toNat - 48) < b * 10 + (c.toNat - 48)
      omega
  exact larger digits 0 _ (by decide)

theorem belowNine {c : UInt8} (decimal : isDecimal c = true) (other : c ≠ 57) : isdigit c = true := by
  unfold isDecimal at decimal
  unfold isdigit
  have apart : c.toNat ≠ 57 := fun same => other (UInt8.toNat_inj.mp same)
  have nine : (57 : UInt8).toNat = 57 := rfl
  simp only [Bool.and_eq_true, decide_eq_true_eq, UInt8.le_iff_toNat_le] at decimal
  simp only [Bool.not_eq_true', Bool.and_eq_false_iff, decide_eq_false_iff_not, UInt8.le_iff_toNat_le]
  omega

theorem standingDigits {digits tail : Bytes} (numbered : digits ≠ []) (decimal : ∀ c ∈ digits, isDecimal c = true)
    (plain : ∀ c ∈ tail, isDecimal c = false) (other : digits.head? ≠ some 57) :
    standing (digits ++ tail) = longLong (value digits) := by
  obtain ⟨c,others,rfl⟩ := List.exists_cons_of_ne_nil numbered
  have stops : isdigit c = true :=
    belowNine (decimal c List.mem_cons_self) (fun nine => other (congrArg some nine))
  have read := atolDigits 0 numbered decimal plain
  unfold standing
  rw [List.cons_append, List.dropWhile_cons_of_neg (by simp [stops])]
  exact read

theorem standingAtMost {digits tail : Bytes} (decimal : ∀ c ∈ digits, isDecimal c = true)
    (plain : ∀ c ∈ tail, isDecimal c = false) : standing (digits ++ tail) ≤ value digits := by
  induction digits with
  | nil =>
    have rest : ∀ c ∈ tail.dropWhile (fun c => !isdigit c), isDecimal c = false :=
      fun c member => plain c ((List.dropWhile_sublist _).subset member)
    exact Int.le_of_eq (atolNone rest)
  | cons c others ih =>
    have later := ih (fun d among => decimal d (List.mem_cons_of_mem c among))
    by_cases nine : c = 57
    · subst nine
      have skipped : standing (57 :: others ++ tail) = standing (others ++ tail) := rfl
      have less := valueFirst others
      omega
    · have first : (c :: others).head? ≠ some 57 := fun same => nine (Option.some.inj same)
      rw [standingDigits (by simp) decimal plain first]
      unfold longLong
      omega

theorem standingBehind {row : KeyRow} (plain : SearchKey row.key) (noTab : 9 ∉ row.key) :
    standing ((shown row).drop row.key.length) = value row.digits ↔ row.gap ≠ [] ∨ row.digits.head? ≠ some 57 := by
  obtain ⟨tail,unit,behind⟩ := shownBehind plain noTab
  have colon (text : Bytes) : standing (58 :: text) = standing text := rfl
  have exact := longLongExact row.bounded
  rw [behind, colon]
  by_cases gap : row.gap = []
  · rw [gap]
    show standing (row.digits ++ tail) = _ ↔ _
    by_cases nine : row.digits.head? = some 57
    · obtain ⟨others,shape⟩ : ∃ others, row.digits = 57 :: others := by
        cases digits : row.digits with
        | nil => exact absurd digits row.numbered
        | cons c others =>
          rw [digits] at nine
          exact ⟨others,by rw [Option.some.inj nine]⟩
      have decimal : ∀ c ∈ others, isDecimal c = true := by
        intro c member
        exact row.decimal c (by rw [shape]; exact List.mem_cons_of_mem 57 member)
      have skipped : standing (57 :: others ++ tail) = standing (others ++ tail) := rfl
      have most := standingAtMost decimal unit
      have less := valueFirst others
      simp only [ne_eq, not_true_eq_false, nine, or_self, iff_false]
      rw [shape, skipped]
      omega
    · simp only [ne_eq, nine, not_false_eq_true, or_true, iff_true]
      rw [standingDigits row.numbered row.decimal unit nine, exact]
  · obtain ⟨n,more⟩ := Nat.exists_eq_add_of_le' (List.length_pos_of_ne_nil gap)
    have read := atolDigits row.gap.length row.numbered row.decimal unit
    have blank : standing (blanks row.gap.length ++ (row.digits ++ tail)) =
        atol (blanks row.gap.length ++ (row.digits ++ tail)) := by
      rw [more]
      rfl
    simp only [ne_eq, gap, not_false_eq_true, true_or, iff_true]
    rw [blank, read, exact]

theorem claimedRow {file : KeyFile} {row : KeyRow} (member : row ∈ file.rows) :
    claimed file.rows row.key = value row.digits := by
  unfold claimed
  cases found : file.rows.find? (fun other => decide (other.key = row.key)) with
  | none =>
    have none := List.find?_eq_none.mp found row member
    simp at none
  | some other =>
    have same : other.key = row.key := by simpa using List.find?_some found
    have one := List.inj_on_of_nodup_map file.apart (List.mem_of_find?_eq_some found) member same
    rw [one]

theorem claimedNone {rows : List KeyRow} {s : Bytes} : claimed rows s = -1 ↔ ∀ row ∈ rows, row.key ≠ s := by
  unfold claimed
  cases found : rows.find? (fun row => decide (row.key = s)) with
  | none =>
    have none := List.find?_eq_none.mp found
    simpa using none
  | some row =>
    have same : row.key = s := by simpa using List.find?_some found
    constructor
    · intro negative
      dsimp only at negative
      omega
    · intro none
      exact absurd same (none row (List.mem_of_find?_eq_some found))

theorem answerFirst {file : KeyFile} {rows : List KeyRow} (some : ∀ row ∈ rows, row ∈ file.rows) {s : Bytes}
    (plain : SearchKey s) : answer rows s = claimed file.rows s ↔
      FoundFirst file.rows s (rows.find? (fun row => decide (Begins s row))) := by
  unfold answer
  cases first : rows.find? (fun row => decide (Begins s row)) with
  | none =>
    unfold FoundFirst
    rw [← claimedNone]
    exact eq_comm
  | some row =>
    have member := some row (List.mem_of_find?_eq_some first)
    have begins : Begins s row := by simpa using List.find?_some first
    unfold FoundFirst
    dsimp only
    by_cases same : row.key = s
    · subst same
      rw [if_pos rfl, claimedRow member]
      exact standingBehind plain begins.1
    · rw [if_neg same]

theorem answerRight {info : NmonProc} {file : KeyFile} {s : Bytes} (plain : SearchKey s) :
    answer (seen info file) s = claimed file.rows s ↔ Found info file s :=
  answerFirst (fun _ member => List.mem_of_mem_take member) plain

def fieldsOf (f : String → Int) : MemStat :=
  ⟨f "MemTotal",f "MemFree",f "MemShared",f "Buffers",f "Cached",f "SwapCached",f "Active",f "Inactive",
    f "HighTotal",f "HighFree",f "LowTotal",f "LowFree",f "SwapTotal",f "SwapFree",f "BigFree"⟩

def memKeys : List String :=
  ["MemTotal","MemFree","MemShared","Buffers","Cached","SwapCached","Active","Inactive","HighTotal","HighFree",
    "LowTotal","LowFree","SwapTotal","SwapFree","BigFree"]

theorem memKeysPlain : ∀ s ∈ memKeys, SearchKey (ascii s) := by decide +kernel

theorem fieldsSame {f h : String → Int} : fieldsOf f = fieldsOf h ↔ ∀ s ∈ memKeys, f s = h s := by
  simp [fieldsOf, memKeys]

theorem readAnswers {files : Files} (opens : ∀ name, files.opens name = true) {info : NmonProc}
    (entry : Entry .meminfo info) (due : info.readThisInterval = 0) {file : KeyFile}
    (there : files.contents ProcFile.meminfo.filename = file.text) (g : Statics) (reread : Bool) :
    ∃ next, procRead files g info .meminfo reread = (g,next) ∧
      ∀ s : String, SearchKey (ascii s) → procMemSearch next s = .ok (answer (seen info file) (ascii s)) := by
  obtain ⟨next,ran,_,_,table⟩ := procReadSplit opens (by decide) entry due g reread
  rw [there] at table
  obtain ⟨lines,shows⟩ := shownRow rfl table
  exact ⟨next,ran,fun s plain => procMemSearchAnswers lines shows plain⟩

/- A key is found with the number on its own line exactly under the condition; the fields of `mem_stat`
are those of their own lines exactly if it holds for each of their keys. -/
theorem keysFound {files : Files} (opens : ∀ name, files.opens name = true) {info : NmonProc}
    (entry : Entry .meminfo info) (due : info.readThisInterval = 0) {file : KeyFile}
    (there : files.contents ProcFile.meminfo.filename = file.text) (g : Statics) :
    (∀ reread, ∃ next, procRead files g info .meminfo reread = (g,next) ∧
      ∀ s : String, SearchKey (ascii s) →
        (procMemSearch next s = .ok (claimed file.rows (ascii s)) ↔ Found info file (ascii s))) ∧
    ∃ next mem, vmpProcMem files g info = .ok (g,next,mem) ∧
      (mem = fieldsOf (fun s => claimed file.rows (ascii s)) ↔ ∀ s ∈ memKeys, Found info file (ascii s)) := by
  constructor
  · intro reread
    obtain ⟨next,ran,answers⟩ := readAnswers opens entry due there g reread
    refine ⟨next,ran,?_⟩
    intro s plain
    rw [answers s plain, ← answerRight plain]
    exact ⟨fun same => Except.ok.inj same,fun same => congrArg _ same⟩
  · obtain ⟨next,ran,answers⟩ := readAnswers opens entry due there g false
    have read (s : String) (key : s ∈ memKeys) := answers s (memKeysPlain s key)
    refine ⟨next,fieldsOf (fun s => answer (seen info file) (ascii s)),?_,?_⟩
    · unfold vmpProcMem
      rw [if_pos due, ran]
      simp only [read "MemTotal" (by decide), read "MemFree" (by decide), read "MemShared" (by decide),
        read "Buffers" (by decide), read "Cached" (by decide), read "SwapCached" (by decide),
        read "Active" (by decide), read "Inactive" (by decide), read "HighTotal" (by decide),
        read "HighFree" (by decide), read "LowTotal" (by decide), read "LowFree" (by decide),
        read "SwapTotal" (by decide), read "SwapFree" (by decide), read "BigFree" (by decide), bind, Except.bind]
      rfl
    · rw [fieldsSame]
      exact forall₂_congr (fun s key => answerRight (memKeysPlain s key))

theorem oneBlank : ∀ c ∈ ([32] : Bytes), c = 32 ∨ c = 9 := by decide +kernel

theorem oneBounded (d : UInt8) : value [d] < 2 ^ 63 := by
  have byte := d.toNat_lt
  show 0 * 10 + (d.toNat - 48) < 2 ^ 63
  omega

theorem oneDigit {d : UInt8} (digit : isDecimal d = true) : ∀ c ∈ [d], isDecimal c = true := by
  intro c member
  rw [List.mem_singleton.mp member]
  exact digit

theorem noUnit : ∀ c ∈ ([] : Bytes), isDecimal c = false ∧ c ≠ 10 := fun _ member => absurd member List.not_mem_nil

def digitRow (key : Bytes) (d : UInt8) (plain : ∀ c ∈ key, c ≠ 58 ∧ c ≠ 32 ∧ c ≠ 10) (digit : isDecimal d = true) :
    KeyRow :=
  ⟨key,[32],[d],[],plain,oneBlank,List.cons_ne_nil d [],oneDigit digit,oneBounded d,noUnit⟩

theorem freezePlain : ∀ c ∈ ascii "MemFreeze", c ≠ 58 ∧ c ≠ 32 ∧ c ≠ 10 := by decide +kernel
theorem freePlain : ∀ c ∈ ascii "MemFree", c ≠ 58 ∧ c ≠ 32 ∧ c ≠ 10 := by decide +kernel

def freezing : KeyFile where
  rows := [digitRow (ascii "MemFreeze") 49 freezePlain rfl,digitRow (ascii "MemFree") 50 freePlain rfl]
  apart := List.nodup_cons.mpr ⟨by decide,List.nodup_singleton _⟩

def memClosed : NmonProc := ⟨none,"/proc/meminfo",0,0,[],[],0⟩

def freezingFiles : Files := ⟨fun _ => true,fun _ => freezing.text⟩

theorem freezeTaken : claimed freezing.rows (ascii "MemFree") = 2 ∧
    procMemSearch (procRead freezingFiles .initial memClosed .meminfo false).2 "MemFree" = .ok 1 := by
  decide +kernel

theorem freezeFound :
    ∃ next, procRead freezingFiles .initial memClosed .meminfo false = (.initial,next) ∧
      procMemSearch next "MemFreeze" = .ok 1 ∧ procMemSearch next "MemFree" ≠ .ok 2 := by
  have opens : ∀ name, freezingFiles.opens name = true := fun _ => rfl
  have there : freezingFiles.contents ProcFile.meminfo.filename = freezing.text := rfl
  obtain ⟨searches,_⟩ := keysFound opens (⟨rfl,Or.inl rfl,Or.inl rfl⟩ : Entry .meminfo memClosed) rfl there .initial
  obtain ⟨next,ran,right⟩ := searches false
  have own : claimed freezing.rows (ascii "MemFreeze") = 1 := by decide +kernel
  have other : claimed freezing.rows (ascii "MemFree") = 2 := by decide +kernel
  refine ⟨next,ran,?_,?_⟩
  · rw [← own]
    exact (right "MemFreeze" (by decide +kernel)).mpr (by decide +kernel)
  · rw [← other]
    intro same
    exact absurd ((right "MemFree" (by decide +kernel)).mp same) (by decide +kernel)

end VmpRl.MemKeys
