import VmpRl.NmonLines

/-! `vmp_proc_mem` on `/proc/meminfo` in the kernel's layout: a key that one row has is found
with the number of that row. -/
namespace VmpRl.NmonMem
open Octets Text CRuntime Nmon ProcFiles NmonLines

theorem keyedText {key : String} (noColon : 58 ∉ ascii key) (row : MemRow) :
    (ascii key).isPrefixOf row.text = keyed key row := by
  unfold keyed MemRow.text
  generalize ascii key = word at noColon ⊢
  generalize row.key = name
  induction word generalizing name with
  | nil => rfl
  | cons c rest ih =>
    have later := ih (fun among => noColon (List.mem_cons_of_mem c among))
    cases name with
    | nil =>
      have different : (c == 58) = false := by
        rw [beq_eq_false_iff_ne]
        exact fun same => noColon (same ▸ List.mem_cons_self)
      simp [List.isPrefixOf, different]
    | cons d others => simp only [List.cons_append, List.isPrefixOf, later]

theorem foundValue {key : String} {row : MemRow} (same : row.key = ascii key) :
    atol ((row.text.drop (ascii key).length).dropWhile (fun c => !isdigit c)) = row.value := by
  obtain ⟨gap,spaced⟩ := Nat.exists_eq_add_of_le' row.spaced
  have behind : row.text.drop (ascii key).length =
      58 :: 32 :: (blanks gap ++ (decimal row.value ++ row.unit)) := by
    unfold MemRow.text
    rw [same, List.drop_left, spaced]
    rfl
  have skipped : (58 :: 32 :: (blanks gap ++ (decimal row.value ++ row.unit))).dropWhile (fun c => !isdigit c) =
      blanks row.gap ++ (decimal row.value ++ row.unit) := by
    rw [spaced]
    rfl
  rw [behind, skipped]
  exact atolDecimal row.gap row.value row.apart row.bounded

theorem rowInside {rows : List MemRow} {p : MemRow → Bool} {row : MemRow} {k : Nat}
    (one : (rows.drop k).filter p = [row]) : k < rows.length := by
  by_contra outside
  rw [List.drop_eq_nil_of_le (Nat.le_of_not_lt outside)] at one
  contradiction

theorem rowShown {info : NmonProc} {rows : List MemRow} (shows : Shows info (rows.map MemRow.text))
    {k : Nat} (inside : k < rows.length) : k < info.lines ∧ info.text k 0 = .ok rows[k].text := by
  have there : (rows.map MemRow.text)[k]? = some rows[k].text := by
    rw [List.getElem?_map, List.getElem?_eq_getElem inside]
    rfl
  obtain ⟨before,text⟩ := shows k _ there
  exact ⟨before,text 0 (Nat.zero_le _)⟩

theorem searchFound {info : NmonProc} {rows : List MemRow} (shows : Shows info (rows.map MemRow.text))
    {key : String} (noColon : 58 ∉ ascii key) {row : MemRow} (same : row.key = ascii key) {k n : Nat}
    (one : (rows.drop k).filter (keyed key) = [row]) (enough : info.lines ≤ k + n) :
    searchLines info (ascii key) (List.range' k n) = .ok (row.value : Int) := by
  induction n generalizing k with
  | zero =>
    have inside : k < rows.length := rowInside one
    have := (rowShown shows inside).1
    omega
  | succ n ih =>
    have inside : k < rows.length := rowInside one
    have text := (rowShown shows inside).2
    rw [List.drop_eq_getElem_cons inside] at one
    rw [List.range'_succ]
    unfold searchLines
    simp only [text, bind, Except.bind, keyedText noColon]
    by_cases first : keyed key rows[k] = true
    · rw [List.filter_cons_of_pos first] at one
      obtain ⟨rfl,_⟩ := List.cons.inj one
      rw [if_pos first, foundValue same]
    · rw [List.filter_cons_of_neg first] at one
      rw [if_neg first]
      exact ih one (by omega)

theorem searchTotal {info : NmonProc} (readable : Readable info) (s : Bytes) {places : List Nat}
    (inside : ∀ i ∈ places, i ≤ info.lines) : ∃ n, searchLines info s places = .ok n := by
  induction places with
  | nil => exact ⟨-1,rfl⟩
  | cons i rest ih =>
    obtain ⟨text,read⟩ := readable i (inside i List.mem_cons_self)
    unfold searchLines
    simp only [read, bind, Except.bind]
    split
    · exact ⟨_,rfl⟩
    · exact ih (fun j among => inside j (List.mem_cons_of_mem i among))

theorem procMemSearchTotal {info : NmonProc} (readable : Readable info) (s : String) :
    ∃ n, procMemSearch info s = .ok n :=
  searchTotal readable (ascii s) (fun _ among => Nat.le_of_lt (List.mem_range.mp among))

theorem procMemSearchFound {info : NmonProc} {rows : List MemRow} (shows : Shows info (rows.map MemRow.text))
    {key : String} (noColon : 58 ∉ ascii key) {row : MemRow} (same : row.key = ascii key)
    (one : rows.filter (keyed key) = [row]) : procMemSearch info key = .ok (row.value : Int) := by
  unfold procMemSearch
  rw [List.range_eq_range']
  exact searchFound shows noColon same (k := 0) one (by omega)

theorem vmpProcMemRead {files : Files} (opens : ∀ name, files.opens name = true) {info : NmonProc}
    (entry : Entry .meminfo info) (due : info.readThisInterval = 0) {file : MemFile}
    (there : files.contents ProcFile.meminfo.filename = file.text) (g : Statics) :
    ∃ next mem, vmpProcMem files g info = .ok (g,next,mem) ∧ Entry .meminfo next ∧
      next.readThisInterval = 1 ∧ mem.memtotal = file.total.value ∧ mem.memfree = file.free.value := by
  obtain ⟨next,ran,kept,done,shows,readable⟩ := procReadDue opens (by decide) entry due
    (file.rows.map MemRow.text) [] (by rw [there, List.append_nil]; rfl) (by rw [List.append_nil]; exact file.small)
    (by intro l member; obtain ⟨row,among,rfl⟩ := List.mem_map.mp member; exact file.clean row among)
    (by rw [List.length_map]; exact file.few) g
  have total := procMemSearchFound shows (by decide) file.totalKey file.oneTotal
  have free := procMemSearchFound shows (by decide) file.freeKey file.oneFree
  have others (s : String) := procMemSearchTotal readable s
  obtain ⟨memshared,readShared⟩ := others "MemShared"
  obtain ⟨buffers,readBuffers⟩ := others "Buffers"
  obtain ⟨cached,readCached⟩ := others "Cached"
  obtain ⟨swapcached,readSwapcached⟩ := others "SwapCached"
  obtain ⟨active,readActive⟩ := others "Active"
  obtain ⟨inactive,readInactive⟩ := others "Inactive"
  obtain ⟨hightotal,readHightotal⟩ := others "HighTotal"
  obtain ⟨highfree,readHighfree⟩ := others "HighFree"
  obtain ⟨lowtotal,readLowtotal⟩ := others "LowTotal"
  obtain ⟨lowfree,readLowfree⟩ := others "LowFree"
  obtain ⟨swaptotal,readSwaptotal⟩ := others "SwapTotal"
  obtain ⟨swapfree,readSwapfree⟩ := others "SwapFree"
  obtain ⟨bigfree,readBigfree⟩ := others "BigFree"
  unfold vmpProcMem
  rw [if_pos due, ran]
  simp only [total, free, readShared, readBuffers, readCached, readSwapcached, readActive, readInactive,
    readHightotal, readHighfree, readLowtotal, readLowfree, readSwaptotal, readSwapfree, readBigfree, bind,
    Except.bind]
  exact ⟨next,_,rfl,kept,done,rfl,rfl⟩

end VmpRl.NmonMem
