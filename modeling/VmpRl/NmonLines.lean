import VmpRl.ProcFiles
import VmpRl.Nmon

/-! `proc_read`: a read that is due makes every line of the file a string of the line table. -/
namespace VmpRl.NmonLines
open Octets Text CRuntime Nmon ProcFiles

theorem fillBufferTaken (contents : Bytes) (tries size : Nat) (read : Bytes) :
    (fillBuffer contents (tries + 1) size read).2 = contents.take (size + 512 * tries - 1) := by
  induction tries generalizing size read with
  | zero =>
    unfold fillBuffer
    dsimp only
    split
    · rfl
    · unfold fillBuffer
      rfl
  | succ tries ih =>
    rw [fillBuffer]
    split
    · rename_i short
      rw [List.length_take] at short
      rw [List.take_of_length_le (by omega), List.take_of_length_le (by omega)]
    · rw [ih]
      congr 1
      omega

theorem fillBufferSize (contents : Bytes) (tries size : Nat) (read : Bytes) :
    size ≤ (fillBuffer contents tries size read).1 := by
  induction tries generalizing size read with
  | zero => exact Nat.le_refl size
  | succ tries ih =>
    rw [fillBuffer]
    split
    · exact Nat.le_refl size
    · exact Nat.le_trans (Nat.le_add_right size 512) (ih _ _)

def detab (line : Bytes) : Bytes := line.map (fun c => if c = 9 then 32 else c)

theorem detabClean {line : Bytes} (noTab : 9 ∉ line) : detab line = line := by
  have same : ∀ c ∈ line, (if c = 9 then 32 else c) = id c := by
    intro c member
    exact if_neg (fun tab : c = 9 => noTab (tab ▸ member))
  rw [detab, List.map_congr_left same, List.map_id]

theorem splitRow {line : Bytes} (whole : 10 ∉ line) (place lines : Nat) (rest : Bytes) :
    splitLines place lines (line ++ 10 :: rest) =
      if lines + 1 = procMaxlines - 1 then (detab line ++ 0 :: rest,[place + line.length + 1])
      else (detab line ++ 0 :: (splitLines (place + line.length + 1) (lines + 1) rest).1,
        (place + line.length + 1) :: (splitLines (place + line.length + 1) (lines + 1) rest).2) := by
  induction line generalizing place with
  | nil => rfl
  | cons c others ih =>
    have notNewline : c ≠ 10 := fun same => whole (same ▸ List.mem_cons_self)
    have later := ih (fun among => whole (List.mem_cons_of_mem c among)) (place + 1)
    have moved : place + 1 + others.length + 1 = place + (c :: others).length + 1 := by
      rw [List.length_cons]
      omega
    rw [List.cons_append, splitLines, if_neg notNewline, later, moved]
    by_cases last : lines + 1 = procMaxlines - 1
    · rw [if_pos last, if_pos last]
      rfl
    · rw [if_neg last, if_neg last]
      rfl

theorem splitLine {line : Bytes} (whole : 10 ∉ line) (noTab : 9 ∉ line) (place lines : Nat) (rest : Bytes) :
    splitLines place lines (line ++ 10 :: rest) =
      if lines + 1 = procMaxlines - 1 then (line ++ 0 :: rest,[place + line.length + 1])
      else (line ++ 0 :: (splitLines (place + line.length + 1) (lines + 1) rest).1,
        (place + line.length + 1) :: (splitLines (place + line.length + 1) (lines + 1) rest).2) := by
  rw [splitRow whole, detabClean noTab]

theorem unlinesCons (first : Bytes) (others : List Bytes) :
    (unlines (first :: others)).length = first.length + 1 + (unlines others).length := by
  simp only [unlines, List.flatMap_cons, List.length_append, List.length_singleton]

theorem splitLast {last : Bytes} (whole : 10 ∉ last) (place lines : Nat) :
    splitLines place lines last = (detab last,[]) := by
  induction last generalizing place with
  | nil => rfl
  | cons c others ih =>
    have notNewline : c ≠ 10 := fun same => whole (same ▸ List.mem_cons_self)
    rw [splitLines, if_neg notNewline, ih (fun among => whole (List.mem_cons_of_mem c among))]
    rfl

theorem splitTable {ls : List Bytes} (clean : ∀ l ∈ ls, 10 ∉ l) {last : Bytes} (whole : 10 ∉ last)
    (place lines : Nat) (room : lines < procMaxlines - 1) :
    (splitLines place lines (unlines ls ++ last)).2.length = min (procMaxlines - 1 - lines) ls.length ∧
    (∀ k ≤ (splitLines place lines (unlines ls ++ last)).2.length,
      (place :: (splitLines place lines (unlines ls ++ last)).2)[k]? = some (place + (unlines (ls.take k)).length)) ∧
    ∀ k < (splitLines place lines (unlines ls ++ last)).2.length, ∀ l, ls[k]? = some l →
      ∃ tail, (splitLines place lines (unlines ls ++ last)).1.drop (unlines (ls.take k)).length =
        detab l ++ 0 :: tail := by
  induction ls generalizing place lines with
  | nil =>
    have none : splitLines place lines (unlines [] ++ last) = (detab last,[]) := splitLast whole place lines
    rw [none]
    refine ⟨(Nat.min_zero _).symm,?_,fun k inside => absurd inside (Nat.not_lt_zero k)⟩
    intro k small
    rw [Nat.le_zero.mp small]
    rfl
  | cons first others ih =>
    have shape : unlines (first :: others) ++ last = first ++ 10 :: (unlines others ++ last) := by
      simp [unlines]
    have size : (detab first).length = first.length := List.length_map _
    have cut (read : Bytes) : (detab first ++ 0 :: read).drop (first.length + 1) = read := by
      rw [← size]
      simp
    rw [shape, splitRow (clean first List.mem_cons_self)]
    by_cases full : lines + 1 = procMaxlines - 1
    · rw [if_pos full]
      refine ⟨by rw [List.length_singleton, List.length_cons]; omega,?_,?_⟩
      · intro k small
        rw [List.length_singleton] at small
        cases k with
        | zero => rfl
        | succ k =>
          have zero : k = 0 := by omega
          subst zero
          rw [List.take_succ_cons, unlinesCons]
          rfl
      · intro k inside l there
        have zero : k = 0 := by
          rw [List.length_singleton] at inside
          omega
        subst zero
        cases Option.some.inj there
        exact ⟨_,rfl⟩
    · rw [if_neg full]
      obtain ⟨counted,entries,texts⟩ := ih (fun l among => clean l (List.mem_cons_of_mem first among))
        (place + first.length + 1) (lines + 1) (by omega)
      refine ⟨by rw [List.length_cons, List.length_cons, counted]; omega,?_,?_⟩
      · intro k small
        cases k with
        | zero => rfl
        | succ k =>
          rw [List.getElem?_cons_succ, entries k (by simpa using small), List.take_succ_cons, unlinesCons]
          congr 1
          omega
      · intro k inside l there
        cases k with
        | zero =>
          cases Option.some.inj there
          exact ⟨_,rfl⟩
        | succ k =>
          obtain ⟨tail,text⟩ := texts k (by simpa using inside) l there
          refine ⟨tail,?_⟩
          rw [List.take_succ_cons, unlinesCons, ← List.drop_drop, cut]
          exact text

theorem splitFound {ls : List Bytes} (clean : ∀ l ∈ ls, Clean l) (rest : Bytes) (place lines : Nat)
    {i : Nat} {l : Bytes} (there : ls[i]? = some l) (room : lines + i < procMaxlines - 1) :
    i < (splitLines place lines (unlines ls ++ rest)).2.length ∧
    ∃ start tail, (place :: (splitLines place lines (unlines ls ++ rest)).2)[i]? = some start ∧
      place ≤ start ∧
      (splitLines place lines (unlines ls ++ rest)).1.drop (start - place) = l ++ 0 :: tail := by
  induction ls generalizing place lines i with
  | nil => simp at there
  | cons first others ih =>
    obtain ⟨whole,noTab,_⟩ := clean first List.mem_cons_self
    have shape : unlines (first :: others) ++ rest = first ++ 10 :: (unlines others ++ rest) := by
      simp [unlines]
    rw [shape, splitLine whole noTab]
    cases i with
    | zero =>
      cases Option.some.inj there
      by_cases last : lines + 1 = procMaxlines - 1
      · rw [if_pos last]
        exact ⟨Nat.one_pos,place,unlines others ++ rest,rfl,Nat.le_refl place,by rw [Nat.sub_self]; rfl⟩
      · rw [if_neg last]
        exact ⟨Nat.succ_pos _,place,_,rfl,Nat.le_refl place,by rw [Nat.sub_self]; rfl⟩
    | succ i =>
      have more : ¬ lines + 1 = procMaxlines - 1 := by omega
      obtain ⟨inside,start,tail,entry,behind,text⟩ := ih
        (fun l among => clean l (List.mem_cons_of_mem first among))
        (place + first.length + 1) (lines + 1) (i := i) there (by omega)
      rw [if_neg more]
      refine ⟨by simpa using inside,start,tail,entry,by omega,?_⟩
      have skipped : start - place = first.length + 1 + (start - (place + first.length + 1)) := by omega
      have cut (read : Bytes) : (first ++ 0 :: read).drop (first.length + 1) = read := by simp
      rw [skipped, ← List.drop_drop, cut]
      exact text

theorem splitLength (place lines : Nat) (text : Bytes) :
    (splitLines place lines text).1.length = text.length := by
  induction text generalizing place lines with
  | nil => rfl
  | cons c rest ih =>
    unfold splitLines
    split
    · split
      · rfl
      · simp [ih]
    · simp [ih]

theorem splitInside {place lines : Nat} {text : Bytes} {start : Nat}
    (member : start ∈ (splitLines place lines text).2) : start ≤ place + text.length := by
  induction text generalizing place lines with
  | nil => simp [splitLines] at member
  | cons c rest ih =>
    rw [List.length_cons]
    unfold splitLines at member
    split at member
    · split at member
      · rw [List.mem_singleton.mp member]
        omega
      · rcases List.mem_cons.mp member with same | later
        · omega
        · have := ih later
          omega
    · have := ih member
      omega

theorem splitBehind {ls : List Bytes} (clean : ∀ l ∈ ls, Clean l) (rest : Bytes) (place lines : Nat)
    (room : lines + ls.length < procMaxlines - 1) :
    (place :: (splitLines place lines (unlines ls ++ rest)).2)[ls.length]? = some (place + (unlines ls).length) ∧
    (splitLines place lines (unlines ls ++ rest)).1.drop (unlines ls).length =
      (splitLines (place + (unlines ls).length) (lines + ls.length) rest).1 := by
  induction ls generalizing place lines with
  | nil => exact ⟨rfl,rfl⟩
  | cons first others ih =>
    obtain ⟨whole,noTab,_⟩ := clean first List.mem_cons_self
    have shape : unlines (first :: others) ++ rest = first ++ 10 :: (unlines others ++ rest) := by
      simp [unlines]
    have size : (unlines (first :: others)).length = first.length + 1 + (unlines others).length := by
      simp only [unlines, List.flatMap_cons, List.length_append, List.length_singleton]
    rw [List.length_cons] at room
    have more : ¬ lines + 1 = procMaxlines - 1 := by omega
    obtain ⟨entry,behind⟩ := ih (fun l among => clean l (List.mem_cons_of_mem first among))
      (place + first.length + 1) (lines + 1) (by omega)
    rw [shape, splitLine whole noTab, if_neg more, size, List.length_cons]
    have moved : place + (first.length + 1 + (unlines others).length) =
      place + first.length + 1 + (unlines others).length := by omega
    have counted : lines + (others.length + 1) = lines + 1 + others.length := by omega
    have cut (read : Bytes) : (first ++ 0 :: read).drop (first.length + 1) = read := by simp
    refine ⟨?_,?_⟩
    · rw [List.getElem?_cons_succ, entry, moved]
    · rw [← List.drop_drop, cut, behind, moved, counted]

theorem splitStarts (place lines : Nat) (text : Bytes) : (splitLines place lines text).2.length ≤ text.count 10 := by
  induction text generalizing place lines with
  | nil => exact Nat.le_refl 0
  | cons c rest ih =>
    unfold splitLines
    split
    · rename_i newline
      rw [newline, List.count_cons_self]
      split
      · exact Nat.succ_le_succ (Nat.zero_le _)
      · exact Nat.succ_le_succ (ih _ _)
    · rename_i other
      rw [List.count_cons_of_ne other]
      exact ih _ _

theorem splitPrefix {word : Bytes} (plain : ∀ c ∈ word, c ≠ 0 ∧ c ≠ 32) {place lines : Nat} {text : Bytes}
    (begins : word <+: (splitLines place lines text).1 ++ [0]) : word <+: text := by
  induction word generalizing place lines text with
  | nil => exact List.nil_prefix
  | cons c others ih =>
    obtain ⟨notNul,notBlank⟩ := plain c List.mem_cons_self
    cases text with
    | nil =>
      obtain ⟨same,_⟩ := List.cons_prefix_cons.mp begins
      exact absurd same notNul
    | cons d rest =>
      unfold splitLines at begins
      split at begins
      · split at begins
        · exact absurd (List.cons_prefix_cons.mp begins).1 notNul
        · exact absurd (List.cons_prefix_cons.mp begins).1 notNul
      · obtain ⟨same,later⟩ := List.cons_prefix_cons.mp begins
        have kept : c = d := by
          split at same
          · exact absurd same notBlank
          · exact same
        exact List.cons_prefix_cons.mpr ⟨kept,ih (fun e among => plain e (List.mem_cons_of_mem c among)) later⟩

def splitRows : Bytes → List Bytes × Bytes
  | [] => ([],[])
  | c :: rest =>
    let (rows,last) := splitRows rest
    if c = 10 then ([] :: rows,last)
    else match rows with
      | [] => ([],c :: last)
      | row :: others => ((c :: row) :: others,last)

def rowsOf (text : Bytes) : List Bytes := (splitRows text).1

theorem splitRowsWhole (text : Bytes) :
    unlines (splitRows text).1 ++ (splitRows text).2 = text ∧
    (∀ l ∈ (splitRows text).1, 10 ∉ l) ∧ 10 ∉ (splitRows text).2 ∧
    (splitRows text).1.length = text.count 10 := by
  induction text with
  | nil => simp [splitRows, unlines]
  | cons c rest ih =>
    obtain ⟨joined,clean,whole,counted⟩ := ih
    unfold splitRows
    dsimp only
    split
    · rename_i newline
      refine ⟨?_,?_,whole,?_⟩
      · rw [newline]
        simpa [unlines] using joined
      · intro l member
        rcases List.mem_cons.mp member with rfl | among
        · exact List.not_mem_nil
        · exact clean l among
      · rw [newline, List.count_cons_self, List.length_cons, counted]
    · rename_i other
      rw [List.count_cons_of_ne other]
      split
      · rename_i none
        rw [none] at joined counted
        refine ⟨by simpa [unlines] using joined,fun l member => absurd member List.not_mem_nil,?_,counted⟩
        intro member
        rcases List.mem_cons.mp member with same | among
        · exact other same.symm
        · exact whole among
      · rename_i row others some
        rw [some] at joined counted clean
        refine ⟨?_,?_,whole,counted⟩
        · simpa [unlines] using joined
        · intro l member
          rcases List.mem_cons.mp member with rfl | among
          · intro newline
            rcases List.mem_cons.mp newline with same | inside
            · exact other same.symm
            · exact clean row List.mem_cons_self inside
          · exact clean l (List.mem_cons_of_mem row among)

theorem rowsOfCount (text : Bytes) : (rowsOf text).length = text.count 10 := (splitRowsWhole text).2.2.2

theorem splitRowsLine {line : Bytes} (whole : 10 ∉ line) (rest : Bytes) :
    splitRows (line ++ 10 :: rest) = (line :: (splitRows rest).1,(splitRows rest).2) := by
  induction line with
  | nil => rfl
  | cons c others ih =>
    have other : c ≠ 10 := fun same => whole (same ▸ List.mem_cons_self)
    rw [List.cons_append, splitRows, ih (fun among => whole (List.mem_cons_of_mem c among))]
    exact if_neg other

theorem splitRowsLast {last : Bytes} (whole : 10 ∉ last) : splitRows last = ([],last) := by
  induction last with
  | nil => rfl
  | cons c others ih =>
    have other : c ≠ 10 := fun same => whole (same ▸ List.mem_cons_self)
    rw [splitRows, ih (fun among => whole (List.mem_cons_of_mem c among))]
    exact if_neg other

theorem rowsOfUnlines {ls : List Bytes} (clean : ∀ l ∈ ls, 10 ∉ l) {last : Bytes} (whole : 10 ∉ last) :
    rowsOf (unlines ls ++ last) = ls := by
  unfold rowsOf
  induction ls with
  | nil => exact congrArg Prod.fst (splitRowsLast whole)
  | cons first others ih =>
    have shape : unlines (first :: others) ++ last = first ++ 10 :: (unlines others ++ last) := by
      simp [unlines]
    rw [shape, splitRowsLine (clean first List.mem_cons_self),
      ih (fun l among => clean l (List.mem_cons_of_mem first among))]

theorem unlinesTake {ls : List Bytes} (clean : ∀ l ∈ ls, 10 ∉ l) (n : Nat) :
    ∃ k last, (unlines ls).take n = unlines (ls.take k) ++ last ∧ 10 ∉ last := by
  induction ls generalizing n with
  | nil => exact ⟨0,[],List.take_nil,List.not_mem_nil⟩
  | cons first others ih =>
    have whole := clean first List.mem_cons_self
    have shape : unlines (first :: others) = (first ++ [10]) ++ unlines others := by simp [unlines]
    rcases Nat.lt_or_ge first.length n with behind | inside
    · obtain ⟨k,last,taken,unended⟩ := ih (fun l among => clean l (List.mem_cons_of_mem first among))
        (n - (first ++ [(10 : UInt8)]).length)
      refine ⟨k + 1,last,?_,unended⟩
      rw [shape, List.take_append, List.take_of_length_le (by rw [List.length_append, List.length_singleton]; omega),
        taken]
      simp [unlines]
    · refine ⟨0,first.take n,?_,fun member => whole (List.mem_of_mem_take member)⟩
      rw [shape, List.append_assoc, List.take_append_of_le_length inside]
      rfl

theorem rowsOfTake {ls : List Bytes} (clean : ∀ l ∈ ls, 10 ∉ l) (n : Nat) :
    rowsOf ((unlines ls).take n) = ls.take (((unlines ls).take n).count 10) := by
  obtain ⟨k,last,taken,unended⟩ := unlinesTake clean n
  have some : ∀ l ∈ ls.take k, 10 ∉ l := fun l among => clean l (List.mem_of_mem_take among)
  have rows := rowsOfUnlines some unended
  rw [taken, ← rowsOfCount, rows, List.length_take]
  rcases Nat.le_total k ls.length with few | all
  · rw [Nat.min_eq_left few]
  · rw [Nat.min_eq_right all, List.take_of_length_le all, List.take_length]

theorem rowsOfMember {text l : Bytes} (member : l ∈ rowsOf text) {c : UInt8} (inside : c ∈ l) : c ∈ text := by
  rw [← (splitRowsWhole text).1]
  refine List.mem_append_left _ (List.mem_flatMap.mpr ⟨l,member,?_⟩)
  exact List.mem_append_left _ inside

theorem detabNoNul {line : Bytes} (noNul : 0 ∉ line) : 0 ∉ detab line := by
  intro member
  obtain ⟨c,among,zero⟩ := List.mem_map.mp member
  split at zero
  · exact absurd zero (by decide)
  · exact noNul (zero ▸ among)

theorem splitFile (text : Bytes) :
    (splitLines 0 0 text).2.length = min (procMaxlines - 1) (text.count 10) ∧
    (∀ k ≤ (splitLines 0 0 text).2.length,
      (0 :: (splitLines 0 0 text).2)[k]? = some (unlines ((rowsOf text).take k)).length) ∧
    ∀ k < (splitLines 0 0 text).2.length, ∃ l, (rowsOf text)[k]? = some l ∧
      ∃ tail, (splitLines 0 0 text).1.drop (unlines ((rowsOf text).take k)).length = detab l ++ 0 :: tail := by
  obtain ⟨whole,clean,unended,rows⟩ := splitRowsWhole text
  obtain ⟨count,entries,texts⟩ := splitTable clean unended 0 0 (by decide)
  rw [whole] at count entries texts
  refine ⟨by rw [count, rows]; rfl,?_,?_⟩
  · intro k inside
    rw [entries k inside, Nat.zero_add]
    rfl
  · intro k inside
    have among : k < (rowsOf text).length := by
      rw [count] at inside
      exact Nat.lt_of_lt_of_le inside (Nat.min_le_right _ _)
    have there := List.getElem?_eq_getElem among
    exact ⟨_,there,texts k inside _ there⟩

theorem unlinesShort {ls : List Bytes} (clean : ∀ l ∈ ls, Clean l) {k : Nat} (short : k < (unlines ls).length) :
    ((unlines ls).take k).count 10 < ls.length := by
  induction ls generalizing k with
  | nil => exact absurd short (Nat.not_lt_zero k)
  | cons first others ih =>
    obtain ⟨whole,_⟩ := clean first List.mem_cons_self
    have shape : unlines (first :: others) = (first ++ [10]) ++ unlines others := by simp [unlines]
    have none : first.count 10 = 0 := List.count_eq_zero.mpr whole
    rw [shape, List.length_append] at short
    have size : (first ++ [(10 : UInt8)]).length = first.length + 1 := by simp
    rw [size] at short
    rw [shape, List.take_append, List.count_append, List.length_cons, size]
    rcases Nat.lt_or_ge first.length k with behind | inside
    · have later := ih (fun l among => clean l (List.mem_cons_of_mem first among)) (k := k - (first.length + 1))
        (by omega)
      have one : ((first ++ [10]).take k).count 10 ≤ 1 := by
        rw [List.take_of_length_le (by omega), List.count_append, none]
        exact Nat.le_refl 1
      omega
    · have nothing : k - (first.length + 1) = 0 := by omega
      rw [nothing, List.take_zero, List.count_nil, List.take_append_of_le_length inside]
      have fewer : (first.take k).count 10 ≤ first.count 10 := (List.take_sublist k first).count_le 10
      omega

def Shows (info : NmonProc) (ls : List Bytes) : Prop :=
  ∀ i l, ls[i]? = some l → i < info.lines ∧ ∀ row ≤ l.length, info.text i row = .ok (l.drop row)

def Readable (info : NmonProc) : Prop := ∀ i ≤ info.lines, ∃ text, info.text i 0 = .ok text

structure Entry (file : ProcFile) (info : NmonProc) : Prop where
  named : info.filename = file.filename
  opened : info.fp = none ∨ info.fp = some file.filename
  sized : info.size = 0 ∨ 512 ≤ info.size

theorem cutBehind (l tail : Bytes) : (cut (l ++ 0 :: tail)).bytes = (cut l).bytes := by
  show (l ++ 0 :: tail).takeWhile (fun c => decide (c ≠ 0)) = l.takeWhile (fun c => decide (c ≠ 0))
  induction l with
  | nil => rfl
  | cons c rest ih =>
    rw [List.cons_append, List.takeWhile_cons, List.takeWhile_cons, ih]

theorem cutAppend {l : Bytes} (noNul : 0 ∉ l) (rest : Bytes) : (cut (l ++ rest)).bytes = l ++ (cut rest).bytes := by
  apply List.takeWhile_append_of_pos
  intro c member
  have different : c ≠ 0 := fun same => noNul (same ▸ member)
  simpa using different

theorem cutLine {l : Bytes} (noNul : 0 ∉ l) (tail : Bytes) : (cut (l ++ 0 :: tail)).bytes = l := by
  rw [cutBehind, cutNoNul noNul]

structure Table (info : NmonProc) (text : Bytes) : Prop where
  line : info.line = 0 :: (splitLines 0 0 text).2
  buf : info.buf = (splitLines 0 0 text).1 ++ [0]
  lines : info.lines = (splitLines 0 0 text).2.length

theorem tableShows {info : NmonProc} {ls : List Bytes} {rest : Bytes} (clean : ∀ l ∈ ls, Clean l)
    (few : ls.length < procMaxlines) (table : Table info (unlines ls ++ rest)) : Shows info ls := by
  obtain ⟨line,buf,lines⟩ := table
  intro i l there
  have bound : i < ls.length := (List.getElem?_eq_some_iff.mp there).1
  obtain ⟨inside,start,tail,entry,_,text⟩ := splitFound clean rest 0 0 there (by omega)
  rw [Nat.sub_zero] at text
  refine ⟨by rw [lines]; exact inside,?_⟩
  intro row small
  have noNul : 0 ∉ l.drop row :=
    fun among => (clean l (List.mem_of_getElem? there)).2.2 (List.mem_of_mem_drop among)
  have room := congrArg List.length text
  simp only [List.length_drop, List.length_append, List.length_cons] at room
  have shown : info.buf.drop (start + row) = l.drop row ++ 0 :: (tail ++ [0]) := by
    rw [buf, List.drop_append_of_le_length (by omega), ← List.drop_drop, text,
      List.drop_append_of_le_length small]
    simp
  unfold NmonProc.text
  rw [line, entry]
  simp only [shown, cutLine noNul]
  rw [if_pos (by rw [buf, List.length_append]; omega)]

theorem tableBehind {info : NmonProc} {ls : List Bytes} {rest : Bytes} (clean : ∀ l ∈ ls, Clean l)
    (few : ls.length < procMaxlines - 1) (table : Table info (unlines ls ++ rest)) {text : Bytes}
    (there : info.text ls.length 0 = .ok text) {word : Bytes} (plain : ∀ c ∈ word, c ≠ 0 ∧ c ≠ 32)
    (begins : word <+: text) : word <+: rest := by
  obtain ⟨entry,behind⟩ := splitBehind clean rest 0 0 (by omega)
  have inside : (unlines ls).length ≤ (splitLines 0 0 (unlines ls ++ rest)).1.length := by
    rw [splitLength, List.length_append]
    omega
  rw [Nat.zero_add] at entry
  unfold NmonProc.text at there
  rw [table.line, entry] at there
  simp only [Nat.add_zero] at there
  split at there
  · cases Except.ok.inj there
    rw [table.buf, List.drop_append_of_le_length inside, behind] at begins
    exact splitPrefix plain (begins.trans (List.takeWhile_prefix _))
  · cases there

theorem tableRow {info : NmonProc} {text : Bytes} (table : Table info text) :
    info.lines = min (procMaxlines - 1) (text.count 10) ∧
    ∀ k < info.lines, ∃ l, (rowsOf text)[k]? = some l ∧ info.text k 0 = .ok (cut (detab l)).bytes := by
  obtain ⟨line,buf,lines⟩ := table
  obtain ⟨count,entries,rows⟩ := splitFile text
  refine ⟨lines.trans count,?_⟩
  intro k inside
  rw [lines] at inside
  obtain ⟨l,there,tail,shown⟩ := rows k inside
  refine ⟨l,there,?_⟩
  have room := congrArg List.length shown
  rw [List.length_drop, List.length_append, List.length_cons] at room
  unfold NmonProc.text
  rw [line, entries k (by omega)]
  dsimp only
  rw [Nat.add_zero, if_pos (by rw [buf, List.length_append]; omega), buf,
    List.drop_append_of_le_length (by omega), shown, List.append_assoc, List.cons_append, cutBehind]

theorem tableReadable {info : NmonProc} {text : Bytes} (table : Table info text) : Readable info := by
  obtain ⟨line,buf,lines⟩ := table
  intro i small
  have inside : i < info.line.length := by
    rw [line, List.length_cons, ← lines]
    omega
  have entry := List.getElem?_eq_getElem inside
  have low : info.line[i] ≤ text.length := by
    have member : info.line[i] ∈ 0 :: (splitLines 0 0 text).2 := line ▸ List.getElem_mem inside
    rcases List.mem_cons.mp member with zero | later
    · omega
    · have := splitInside later
      omega
  unfold NmonProc.text
  rw [entry]
  simp only
  rw [if_pos (by rw [buf, List.length_append, splitLength, List.length_singleton]; omega)]
  exact ⟨_,rfl⟩

/- How many bytes a read has room for, at most: the size of the buffer may grow 4095 times. -/
def room (info : NmonProc) : Nat := (if info.size = 0 then 512 else info.size) + 512 * 4095 - 1

theorem procReadSplit {files : Files} (opens : ∀ name, files.opens name = true) {file : ProcFile}
    (plain : file ≠ .version) {info : NmonProc} (entry : Entry file info) (due : info.readThisInterval = 0)
    (g : Statics) (reread : Bool) :
    ∃ next, procRead files g info file reread =
        (if file = .stat then {g with procCpuDone := 0} else g,next) ∧
      Entry file next ∧ next.readThisInterval = 1 ∧
      Table next ((files.contents file.filename).take (room info)) := by
  have name : info.fp.getD info.filename = file.filename := by
    rcases entry.opened with closed | opened
    · rw [closed]
      exact entry.named
    · rw [opened]
      rfl
  have size : 512 ≤ if info.size = 0 then 512 else info.size := by
    rcases entry.sized with zero | large
    · rw [if_pos zero]
    · rw [if_neg (by omega)]
      exact large
  have read := fillBufferTaken (files.contents file.filename) 4095 (if info.size = 0 then 512 else info.size) []
  have grown := fillBufferSize (files.contents file.filename) 4096 (if info.size = 0 then 512 else info.size) []
  unfold procRead
  rw [if_neg (by rw [due]; decide), if_neg (by simp [opens])]
  simp only [name, if_neg plain, read]
  refine ⟨_,rfl,⟨entry.named,?_,Or.inr (Nat.le_trans size grown)⟩,rfl,rfl,rfl,rfl⟩
  cases reread with
  | true => exact Or.inl rfl
  | false => exact Or.inr rfl

theorem procReadTable {files : Files} (opens : ∀ name, files.opens name = true) {file : ProcFile}
    (plain : file ≠ .version) {info : NmonProc} (entry : Entry file info) (due : info.readThisInterval = 0)
    (g : Statics) :
    ∃ next, procRead files g info file false =
        (if file = .stat then {g with procCpuDone := 0} else g,next) ∧
      Entry file next ∧ next.readThisInterval = 1 ∧
      Table next ((files.contents file.filename).take (room info)) :=
  procReadSplit opens plain entry due g false

theorem procReadDue {files : Files} (opens : ∀ name, files.opens name = true) {file : ProcFile}
    (plain : file ≠ .version) {info : NmonProc} (entry : Entry file info) (due : info.readThisInterval = 0)
    (ls : List Bytes) (rest : Bytes) (there : files.contents file.filename = unlines ls ++ rest)
    (small : (unlines ls ++ rest).length < 2 ^ 21) (clean : ∀ l ∈ ls, Clean l)
    (few : ls.length < procMaxlines) (g : Statics) :
    ∃ next, procRead files g info file false =
        (if file = .stat then {g with procCpuDone := 0} else g,next) ∧
      Entry file next ∧ next.readThisInterval = 1 ∧ Shows next ls ∧ Readable next := by
  obtain ⟨next,ran,kept,done,table⟩ := procReadTable opens plain entry due g
  have whole : (unlines ls ++ rest).take (room info) = unlines ls ++ rest := by
    apply List.take_of_length_le
    unfold room
    rcases entry.sized with zero | large
    · rw [if_pos zero]
      omega
    · rw [if_neg (by omega)]
      omega
  rw [there, whole] at table
  exact ⟨next,ran,kept,done,tableShows clean few table,tableReadable table⟩

end VmpRl.NmonLines
