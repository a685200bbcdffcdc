import Mathlib.Data.Nat.Digits.Lemmas
import VmpRl.Base.Octets

/-! Decimal text and what the C library reads of it: integers after white space, the
conversions of `sscanf`, `atol`, and lines taken from a file with a bounded buffer. -/
namespace VmpRl.Text
open Octets

def isSpace (c : UInt8) : Bool := c == 32 || (9 ≤ c && c ≤ 13)
def isDecimal (c : UInt8) : Bool := 48 ≤ c && c ≤ 57

def digit (d : Nat) : UInt8 := UInt8.ofNat (48 + d)
def decimal (n : Nat) : Bytes := if n = 0 then [48] else ((Nat.digits 10 n).map digit).reverse
def blanks (n : Nat) : Bytes := List.replicate n 32

def value (text : Bytes) : Nat := text.foldl (fun n c => n * 10 + (c.toNat - 48)) 0

def sign : Bytes → Bool × Bytes
  | 45 :: rest => (true,rest)
  | 43 :: rest => (false,rest)
  | text => (false,text)

def scanNumber (text : Bytes) : Option (Int × Bytes) :=
  let (negative,text) := sign (text.dropWhile isSpace)
  let digits := text.takeWhile isDecimal
  if digits = [] then none
  else some (if negative then -value digits else value digits,text.dropWhile isDecimal)

/- `%lld` and `atol` stop at the ends of the 64-bit range, `%llu` and `%lu` at the upper end. -/
def longLong (n : Int) : Int := max (-2 ^ 63) (min n (2 ^ 63 - 1))
def unsignedLong (n : Int) : Nat := if 2 ^ 64 ≤ n.natAbs then 2 ^ 64 - 1 else (n % 2 ^ 64).toNat

def sscanf {α : Type} (convert : Int → α) : Nat → Bytes → List α
  | 0, _ => []
  | count+1, text => match scanNumber text with
    | none => []
    | some (n,rest) => convert n :: sscanf convert count rest

/- `%s`: the bytes up to white space, and the text behind them. -/
def scanWord (text : Bytes) : Option (Bytes × Bytes) :=
  let text := text.dropWhile isSpace
  if text = [] then none
  else some (text.takeWhile (fun c => !isSpace c),text.dropWhile (fun c => !isSpace c))

def sscanfAfter (text input : Bytes) : Option Int :=
  if text.isPrefixOf input then (sscanf longLong 1 (input.drop text.length)).head? else none

def atol (text : Bytes) : Int := match scanNumber text with
  | none => 0
  | some (n,_) => longLong n

/- `fgets` with room for `room` bytes before the NUL; at the end of the file it returns NULL. -/
def takeLine : Nat → Bytes → Bytes × Bytes
  | 0, text => ([],text)
  | _+1, [] => ([],[])
  | room+1, c :: rest =>
    if c = 10 then ([c],rest)
    else let (line,others) := takeLine room rest
      (c :: line,others)

def fgets (size : Nat) (text : Bytes) : Option (Bytes × Bytes) :=
  if text = [] then none else some (takeLine (size - 1) text)

theorem digitDecimal {d : Nat} (small : d < 10) : isDecimal (digit d) = true := by
  interval_cases d <;> rfl

theorem digitValue {d : Nat} (small : d < 10) : (digit d).toNat - 48 = d := by
  interval_cases d <;> rfl

theorem decimalNonempty (n : Nat) : decimal n ≠ [] := by
  unfold decimal
  split
  · simp
  · rename_i nonzero
    simpa [Nat.digits_eq_nil_iff_eq_zero] using nonzero

theorem decimalDigits (n : Nat) : ∀ c ∈ decimal n, isDecimal c = true := by
  intro c member
  unfold decimal at member
  split at member
  · obtain rfl := List.mem_singleton.mp member
    rfl
  · obtain ⟨d,among,rfl⟩ := List.mem_map.mp (List.mem_reverse.mp member)
    exact digitDecimal (Nat.digits_lt_base (by decide) among)

theorem valueDigits (digits : List Nat) (small : ∀ d ∈ digits, d < 10) :
    value (digits.map digit).reverse = Nat.ofDigits 10 digits := by
  induction digits with
  | nil => rfl
  | cons d rest ih =>
    have first := digitValue (small d List.mem_cons_self)
    have others := ih (fun e among => small e (List.mem_cons_of_mem d among))
    unfold value at others ⊢
    simp only [List.map_cons, List.reverse_cons, List.foldl_append, List.foldl_cons,
      List.foldl_nil, others, first, Nat.ofDigits_cons]
    omega

@[simp] theorem valueDecimal (n : Nat) : value (decimal n) = n := by
  unfold decimal
  split
  · rename_i zero
    rw [zero]
    rfl
  · rw [valueDigits _ (fun d among => Nat.digits_lt_base (by decide) among), Nat.ofDigits_digits]

theorem decimalLength {n k : Nat} (low : 10 ^ k ≤ n) (high : n < 10 ^ (k + 1)) :
    (decimal n).length = k + 1 := by
  have positive : n ≠ 0 := by
    have := Nat.pos_of_ne_zero (pow_ne_zero k (by decide : (10 : Nat) ≠ 0))
    omega
  unfold decimal
  rw [if_neg positive, List.length_reverse, List.length_map, Nat.length_digits 10 n (by decide) positive,
    Nat.log_eq_of_pow_le_of_lt_pow low high]

theorem decimalLengthMono {i n : Nat} (le : i ≤ n) : (decimal i).length ≤ (decimal n).length := by
  have some : 1 ≤ (decimal n).length := List.length_pos_of_ne_nil (decimalNonempty n)
  by_cases zero : i = 0
  · rw [zero]
    exact some
  · unfold decimal
    rw [if_neg zero, if_neg (by omega)]
    simp only [List.length_reverse, List.length_map]
    exact Nat.le_length_digits_le 10 i n le

theorem notSpaceDecimal {c : UInt8} (h : isDecimal c = true) : isSpace c = false := by
  unfold isDecimal at h
  unfold isSpace
  simp only [Bool.and_eq_true, decide_eq_true_eq, UInt8.le_iff_toNat_le] at h
  simp only [Bool.or_eq_false_iff, Bool.and_eq_false_iff, beq_eq_false_iff_ne, decide_eq_false_iff_not,
    UInt8.le_iff_toNat_le]
  have low : (48 : UInt8).toNat = 48 := rfl
  have top : (13 : UInt8).toNat = 13 := rfl
  refine ⟨?_,by omega⟩
  intro same
  rw [same] at h
  exact absurd h.1 (by decide)

def Stops (rest : Bytes) : Prop := ∀ c ∈ rest.head?, isDecimal c = false

theorem stopsNil : Stops [] := by
  intro c member
  simp at member

theorem stopsCons {c : UInt8} (h : isDecimal c = false) (rest : Bytes) : Stops (c :: rest) := by
  intro d member
  cases Option.some.inj member
  exact h

theorem takeWhileStops {rest : Bytes} (stops : Stops rest) : rest.takeWhile isDecimal = [] := by
  cases rest with
  | nil => rfl
  | cons c others => rw [List.takeWhile_cons, stops c rfl]; rfl

theorem dropWhileStops {rest : Bytes} (stops : Stops rest) : rest.dropWhile isDecimal = rest := by
  cases rest with
  | nil => rfl
  | cons c others => rw [List.dropWhile_cons, stops c rfl]; rfl

theorem skipBlanks (n : Nat) (text : Bytes) :
    (blanks n ++ text).dropWhile isSpace = text.dropWhile isSpace := by
  apply List.dropWhile_append_of_pos
  intro c member
  obtain rfl := List.eq_of_mem_replicate member
  rfl

theorem signDecimal {c : UInt8} (h : isDecimal c = true) (rest : Bytes) :
    sign (c :: rest) = (false,c :: rest) := by
  have notMinus : c ≠ 45 := by
    intro same
    subst same
    exact absurd h (by decide)
  have notPlus : c ≠ 43 := by
    intro same
    subst same
    exact absurd h (by decide)
  unfold sign
  split
  · rename_i same
    exact absurd (List.cons.inj same).1 notMinus
  · rename_i same
    exact absurd (List.cons.inj same).1 notPlus
  · rfl

theorem scanDigits (gap : Nat) {digits : Bytes} (nonempty : digits ≠ [])
    (all : ∀ c ∈ digits, isDecimal c = true) {rest : Bytes} (stops : Stops rest) :
    scanNumber (blanks gap ++ (digits ++ rest)) = some ((value digits : Int),rest) := by
  obtain ⟨c,others,shape⟩ := List.exists_cons_of_ne_nil nonempty
  have first : isDecimal c = true := all c (by rw [shape]; exact List.mem_cons_self)
  have skipped : (digits ++ rest).dropWhile isSpace = digits ++ rest := by
    rw [shape, List.cons_append, List.dropWhile_cons, notSpaceDecimal first]
    rfl
  have unsigned : sign (digits ++ rest) = (false,digits ++ rest) := by
    rw [shape]
    exact signDecimal first _
  have taken : (digits ++ rest).takeWhile isDecimal = digits := by
    rw [List.takeWhile_append_of_pos all, takeWhileStops stops, List.append_nil]
  have left : (digits ++ rest).dropWhile isDecimal = rest := by
    rw [List.dropWhile_append_of_pos all, dropWhileStops stops]
  unfold scanNumber
  rw [skipBlanks, skipped, unsigned]
  simp only [taken, left, if_neg nonempty]
  rfl

theorem scanDecimal (gap n : Nat) {rest : Bytes} (stops : Stops rest) :
    scanNumber (blanks gap ++ (decimal n ++ rest)) = some ((n : Int),rest) := by
  rw [scanDigits gap (decimalNonempty n) (decimalDigits n) stops, valueDecimal]

theorem longLongExact {n : Nat} (small : n < 2 ^ 63) : longLong n = n := by
  unfold longLong
  omega

theorem unsignedLongExact {n : Nat} (small : n < 2 ^ 64) : unsignedLong n = n := by
  unfold unsignedLong
  rw [if_neg (by simpa using small)]
  omega

theorem atolDecimal (gap n : Nat) {rest : Bytes} (stops : Stops rest) (small : n < 2 ^ 63) :
    atol (blanks gap ++ (decimal n ++ rest)) = n := by
  unfold atol
  rw [scanDecimal gap n stops]
  exact longLongExact small

theorem sscanfBlank {α : Type} (convert : Int → α) (count : Nat) (text : Bytes) :
    sscanf convert count (32 :: text) = sscanf convert count text := by
  have skipped : scanNumber (32 :: text) = scanNumber text := rfl
  cases count with
  | zero => rfl
  | succ count =>
    unfold sscanf
    rw [skipped]

def cells (row : List (Nat × Nat)) : Bytes := row.flatMap (fun cell => blanks cell.1 ++ decimal cell.2)

theorem cellsCons (cell : Nat × Nat) (row : List (Nat × Nat)) (rest : Bytes) :
    cells (cell :: row) ++ rest = blanks cell.1 ++ (decimal cell.2 ++ (cells row ++ rest)) := by
  simp [cells]

def Spaced (row : List (Nat × Nat)) : Prop := ∀ cell ∈ row.tail, 1 ≤ cell.1

theorem stopsCells {row : List (Nat × Nat)} (spaced : ∀ cell ∈ row, 1 ≤ cell.1) {rest : Bytes}
    (stops : Stops rest) : Stops (cells row ++ rest) := by
  cases row with
  | nil => exact stops
  | cons cell others =>
    obtain ⟨gap,positive⟩ := Nat.exists_eq_add_of_le' (spaced cell List.mem_cons_self)
    rw [cellsCons, positive, blanks, List.replicate_succ]
    exact stopsCons (by rfl) _

theorem sscanfCells {α : Type} (convert : Int → α) {row : List (Nat × Nat)} (spaced : Spaced row)
    {rest : Bytes} (stops : Stops rest) {count : Nat} (enough : count ≤ row.length) :
    sscanf convert count (cells row ++ rest) = (row.take count).map (fun cell => convert cell.2) := by
  induction count generalizing row with
  | zero => rfl
  | succ count ih =>
    cases row with
    | nil => simp at enough
    | cons cell others =>
      have behind : Stops (cells others ++ rest) := stopsCells spaced stops
      have apart : Spaced others := fun c among => spaced c (List.mem_of_mem_tail among)
      unfold sscanf
      rw [cellsCons, scanDecimal _ _ behind]
      simp only [ih apart (Nat.le_of_succ_le_succ enough), List.take_succ_cons, List.map_cons]

theorem cellsByte {row : List (Nat × Nat)} {c : UInt8} (member : c ∈ cells row) :
    c = 32 ∨ isDecimal c = true := by
  obtain ⟨cell,_,among⟩ := List.mem_flatMap.mp member
  rcases List.mem_append.mp among with gap | number
  · exact Or.inl (List.eq_of_mem_replicate gap)
  · exact Or.inr (decimalDigits cell.2 c number)

theorem cellsAvoid {row : List (Nat × Nat)} {c : UInt8} (blank : c ≠ 32) (decimal : isDecimal c = false) :
    c ∉ cells row := by
  intro member
  rcases cellsByte member with same | digit
  · exact blank same
  · rw [decimal] at digit
    contradiction

theorem sscanfAfterDecimal (text : Bytes) (gap n : Nat) {rest : Bytes} (stops : Stops rest)
    (small : n < 2 ^ 63) : sscanfAfter text (text ++ (blanks gap ++ (decimal n ++ rest))) = some (n : Int) := by
  have begins : text.isPrefixOf (text ++ (blanks gap ++ (decimal n ++ rest))) = true := by
    rw [List.isPrefixOf_iff_prefix]
    exact List.prefix_append text _
  unfold sscanfAfter
  rw [if_pos begins, List.drop_left]
  unfold sscanf
  rw [scanDecimal gap n stops]
  simp only [List.head?_cons, longLongExact small]

theorem scanWordPlain {word : Bytes} (nonempty : word ≠ []) (plain : ∀ c ∈ word, isSpace c = false)
    {c : UInt8} (space : isSpace c = true) (rest : Bytes) :
    scanWord (word ++ c :: rest) = some (word,c :: rest) := by
  obtain ⟨first,others,shape⟩ := List.exists_cons_of_ne_nil nonempty
  have head : isSpace first = false := plain first (by rw [shape]; exact List.mem_cons_self)
  have kept : ∀ d ∈ word, (!isSpace d) = true := fun d among => by rw [plain d among]; rfl
  have started : (word ++ c :: rest).dropWhile isSpace = word ++ c :: rest := by
    rw [shape, List.cons_append, List.dropWhile_cons, head]
    rfl
  have taken : (word ++ c :: rest).takeWhile (fun c => !isSpace c) = word := by
    rw [List.takeWhile_append_of_pos kept, List.takeWhile_cons, space]
    simp
  have left : (word ++ c :: rest).dropWhile (fun c => !isSpace c) = c :: rest := by
    rw [List.dropWhile_append_of_pos kept, List.dropWhile_cons, space]
    rfl
  unfold scanWord
  simp only [started, taken, left]
  rw [if_neg (by simp)]

theorem takeLineWhole {line : Bytes} (whole : 10 ∉ line) (others : Bytes) {room : Nat}
    (fits : line.length < room) : takeLine room (line ++ 10 :: others) = (line ++ [10],others) := by
  induction line generalizing room with
  | nil =>
    cases room with
    | zero => simp at fits
    | succ room => rfl
  | cons c rest ih =>
    cases room with
    | zero => simp at fits
    | succ room =>
      have different : c ≠ 10 := fun same => whole (same ▸ List.mem_cons_self)
      have behind : 10 ∉ rest := fun among => whole (List.mem_cons_of_mem c among)
      have later := ih behind (Nat.lt_of_succ_lt_succ fits)
      simp only [List.cons_append, takeLine, if_neg different, later]

theorem fgetsLine (size : Nat) {line : Bytes} (whole : 10 ∉ line) (others : Bytes)
    (fits : line.length < size - 1) : fgets size (line ++ 10 :: others) = some (line ++ [10],others) := by
  unfold fgets
  rw [if_neg (by simp), takeLineWhole whole others fits]

end VmpRl.Text
