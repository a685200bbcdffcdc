import Mathlib.Data.List.Destutter
import VmpRl.Base.Scan
import VmpRl.NmonLines

/-! `strip_spaces` as it works on its buffer, reading at `p` and writing at `s`: it never
writes past what it has read, and leaves the string with its blanks squeezed. -/
namespace VmpRl.StripSpaces
open Octets CRuntime Nmon NmonLines Scan

structure Cursors where
  buf : Bytes
  p : Nat
  s : Nat
  spaced : Bool

def blankColon (buf : Bytes) (p : Nat) (c : UInt8) : Run Bytes :=
  if c = 58 then store Stop.outOfBounds buf p 32 else .ok buf

def stripRound (m : Cursors) : Run (Round Cursors Bytes) := do
  let c ← load Stop.outOfBounds m.buf m.p
  if c = 0 then
    let buf ← store Stop.outOfBounds m.buf m.s 0
    .ok (.over buf)
  else
    let buf ← blankColon m.buf m.p c
    let c ← load Stop.outOfBounds buf m.p
    if c ≠ 32 then
      let buf ← store Stop.outOfBounds buf m.s c
      .ok (.again ⟨buf,m.p + 1,m.s + 1,false⟩)
    else if m.spaced then .ok (.again ⟨buf,m.p + 1,m.s,true⟩)
    else
      let buf ← store Stop.outOfBounds buf m.s c
      .ok (.again ⟨buf,m.p + 1,m.s + 1,true⟩)

def stripStart (buf : Bytes) : Cursors := ⟨buf,0,0,true⟩

/- Every round moves `p` on, so a loop with more rounds than bytes leaves the buffer. -/
def stripSpacesInPlace (buf : Bytes) : Run Bytes := loop stripRound .endless (buf.length + 1) (stripStart buf)

def colonBlank (c : UInt8) : UInt8 := if c = 58 then 32 else c

def NotBoth (a b : UInt8) : Prop := ¬ (a = 32 ∧ b = 32)

instance : DecidableRel NotBoth := fun a b => inferInstanceAs (Decidable (¬ (a = 32 ∧ b = 32)))

/- Each colon becomes a blank, the leading blanks go, and a run of blanks keeps its first. -/
def squeezed (text : Bytes) : Bytes := ((text.map colonBlank).dropWhile (· = 32)).destutter NotBoth

example : squeezed (ascii " a:  b ") = ascii "a b " := by decide

theorem stripBlank {c : UInt8} (blank : colonBlank c = 32) (rest : Bytes) :
    stripSpaces true (c :: rest) = stripSpaces true rest ∧
    stripSpaces false (c :: rest) = 32 :: stripSpaces true rest := by
  unfold colonBlank at blank
  simp [stripSpaces, blank]

theorem stripOther {c : UInt8} (other : colonBlank c ≠ 32) (spaced : Bool) (rest : Bytes) :
    colonBlank c = c ∧ stripSpaces spaced (c :: rest) = c :: stripSpaces false rest := by
  have notColon : c ≠ 58 := by
    intro same
    subst same
    exact other rfl
  have same : colonBlank c = c := if_neg notColon
  rw [same] at other
  exact ⟨same,by simp [stripSpaces, notColon, other]⟩

theorem stripDestutter (text : Bytes) (last : UInt8) (spaced : Bool) (flag : spaced = true ↔ last = 32) :
    (text.map colonBlank).destutter' NotBoth last = last :: stripSpaces spaced text := by
  induction text generalizing last spaced with
  | nil => rfl
  | cons c rest ih =>
    rw [List.map_cons]
    by_cases blank : colonBlank c = 32
    · obtain ⟨again,first⟩ := stripBlank blank rest
      rw [blank]
      cases spaced with
      | true =>
        have twice : ¬ NotBoth last 32 := fun h => h ⟨flag.mp rfl,rfl⟩
        rw [List.destutter'_cons_neg _ twice, again]
        exact ih last true flag
      | false =>
        have once : NotBoth last 32 := fun h => Bool.noConfusion (flag.mpr h.1)
        rw [List.destutter'_cons_pos _ once, first, ih 32 true (by simp)]
    · obtain ⟨same,kept⟩ := stripOther blank spaced rest
      have apart : NotBoth last (colonBlank c) := fun h => blank h.2
      rw [List.destutter'_cons_pos _ apart, kept, same, ih c false (by simpa [same] using blank)]

theorem stripSqueezed (text : Bytes) : stripSpaces true text = squeezed text := by
  induction text with
  | nil => rfl
  | cons c rest ih =>
    by_cases blank : colonBlank c = 32
    · rw [(stripBlank blank rest).1, ih]
      simp [squeezed, blank]
    · obtain ⟨same,kept⟩ := stripOther blank true rest
      have first : squeezed (c :: rest) = (rest.map colonBlank).destutter' NotBoth (colonBlank c) := by
        simp [squeezed, blank, List.destutter_cons']
      rw [kept, first, same]
      exact (stripDestutter rest c false (by simpa [same] using blank)).symm

structure Squeezing (text behind : Bytes) (m : Cursors) (written gap unread : Bytes) : Prop where
  buf : m.buf = written ++ (gap ++ (unread ++ 0 :: behind))
  s : m.s = written.length
  p : m.p = written.length + gap.length
  left : unread = text.drop m.p
  ahead : m.p + unread.length = text.length
  result : written ++ stripSpaces m.spaced unread = squeezed text

def Midway (text behind : Bytes) (m : Cursors) : Prop :=
  ∃ written gap unread, Squeezing text behind m written gap unread

def Left (text behind buf : Bytes) : Prop :=
  ∃ leftover, leftover.length + (squeezed text).length = text.length ∧
    buf = squeezed text ++ 0 :: (leftover ++ behind)

theorem readCell {buf written gap tail : Bytes} {c : UInt8} {p : Nat} (shape : buf = written ++ (gap ++ c :: tail))
    (here : p = written.length + gap.length) : load Stop.outOfBounds buf p = .ok c := by
  rw [shape, ← List.append_assoc]
  exact loadAt _ (by rw [here, List.length_append]) c tail

theorem editCell {buf written gap tail : Bytes} {c : UInt8} {p : Nat} (shape : buf = written ++ (gap ++ c :: tail))
    (here : p = written.length + gap.length) :
    blankColon buf p c = .ok (written ++ (gap ++ colonBlank c :: tail)) := by
  unfold blankColon colonBlank
  split
  · rw [shape, ← List.append_assoc, storeAt _ (by rw [here, List.length_append]), List.append_assoc]
  · rw [shape]

theorem roundOver {text behind : Bytes} {m : Cursors} {written gap : Bytes}
    (h : Squeezing text behind m written gap []) :
    ∃ buf, stripRound m = .ok (.over buf) ∧ Left text behind buf := by
  obtain ⟨moved,same,stored⟩ := storeAcross Stop.outOfBounds written gap 0 behind
  have read := readCell h.buf h.p
  have done : written = squeezed text := by simpa [stripSpaces] using h.result
  have ahead := h.ahead
  rw [List.length_nil, h.p, done] at ahead
  refine ⟨_,?_,moved,by omega,by rw [← done]⟩
  unfold stripRound
  rw [read, h.buf, h.s, List.nil_append]
  simp only [stored, bind, Except.bind, if_true]

theorem roundAgain {text behind : Bytes} (noNul : 0 ∉ text) {m : Cursors} {written gap rest : Bytes} {c : UInt8}
    (h : Squeezing text behind m written gap (c :: rest)) :
    ∃ t, stripRound m = .ok (.again t) ∧ t.p = m.p + 1 ∧ Midway text behind t := by
  have nonzero : c ≠ 0 := by
    intro same
    have member : c ∈ text.drop m.p := h.left ▸ List.mem_cons_self
    exact noNul (same ▸ List.mem_of_mem_drop member)
  have shape : m.buf = written ++ (gap ++ c :: (rest ++ 0 :: behind)) := h.buf
  have read := readCell shape h.p
  have edited := editCell shape h.p
  have again := readCell (rfl : written ++ (gap ++ colonBlank c :: (rest ++ 0 :: behind)) = _) h.p
  obtain ⟨moved,same,stored⟩ := storeAcross Stop.outOfBounds written gap (colonBlank c) (rest ++ 0 :: behind)
  have left : rest = text.drop (m.p + 1) := by
    rw [← List.tail_drop, ← h.left]
    rfl
  have ahead : m.p + 1 + rest.length = text.length := by
    have := h.ahead
    rw [List.length_cons] at this
    omega
  have further : m.p + 1 = (written ++ [colonBlank c]).length + moved.length := by
    rw [List.length_append, List.length_singleton, same, h.p]
    omega
  have wider : written ++ colonBlank c :: (moved ++ (rest ++ 0 :: behind)) =
      (written ++ [colonBlank c]) ++ (moved ++ (rest ++ 0 :: behind)) := by simp
  have start : stripRound m =
      (if colonBlank c ≠ 32 then
        .ok (.again ⟨written ++ colonBlank c :: (moved ++ (rest ++ 0 :: behind)),m.p + 1,m.s + 1,false⟩)
      else if m.spaced then
        .ok (.again ⟨written ++ (gap ++ colonBlank c :: (rest ++ 0 :: behind)),m.p + 1,m.s,true⟩)
      else .ok (.again ⟨written ++ colonBlank c :: (moved ++ (rest ++ 0 :: behind)),m.p + 1,m.s + 1,true⟩)) := by
    rw [← h.s] at stored
    unfold stripRound
    simp only [read, bind, Except.bind, if_neg nonzero, edited, again, stored]
  rw [start]
  by_cases blank : colonBlank c = 32
  · obtain ⟨skipped,first⟩ := stripBlank blank rest
    rw [if_neg (fun other => other blank)]
    have result := h.result
    cases spaced : m.spaced with
    | true =>
      rw [spaced, skipped] at result
      refine ⟨_,rfl,rfl,written,gap ++ [colonBlank c],rest,?_,h.s,?_,left,ahead,result⟩
      · simp
      · show m.p + 1 = _
        rw [List.length_append, List.length_singleton, h.p]
        omega
    | false =>
      rw [spaced, first, ← blank] at result
      refine ⟨_,rfl,rfl,written ++ [colonBlank c],moved,rest,wider,?_,further,left,ahead,?_⟩
      · show m.s + 1 = _
        rw [h.s, List.length_append, List.length_singleton]
      · simpa using result
  · obtain ⟨kept,first⟩ := stripOther blank m.spaced rest
    rw [if_pos blank]
    have result := h.result
    rw [first, ← kept] at result
    refine ⟨_,rfl,rfl,written ++ [colonBlank c],moved,rest,wider,?_,further,left,ahead,?_⟩
    · show m.s + 1 = _
      rw [h.s, List.length_append, List.length_singleton]
    · simpa using result

theorem stripAdvances {text : Bytes} (noNul : 0 ∉ text) (behind : Bytes) :
    Advances (Midway text behind) (Left text behind) (fun m => text.length - m.p) stripRound := by
  intro m h
  obtain ⟨written,gap,unread,h⟩ := h
  cases unread with
  | nil =>
    obtain ⟨buf,ended,left⟩ := roundOver h
    exact .inr ⟨buf,ended,left⟩
  | cons c rest =>
    obtain ⟨t,went,next,kept⟩ := roundAgain noNul h
    have ahead := h.ahead
    rw [List.length_cons] at ahead
    refine .inl ⟨t,went,kept,?_⟩
    show text.length - t.p < text.length - m.p
    omega

theorem stripBase (text behind : Bytes) : Midway text behind (stripStart (text ++ 0 :: behind)) :=
  ⟨[],[],text,rfl,rfl,rfl,rfl,Nat.zero_add _,stripSqueezed text⟩

theorem stripEnds (text : CString) (behind : Bytes) :
    ∃ buf, Left text.bytes behind buf ∧ ∀ fuel, text.bytes.length < fuel →
      loop stripRound .endless fuel (stripStart (text.bytes ++ 0 :: behind)) = .ok buf := by
  obtain ⟨buf,ran,left⟩ := loopRule (stripAdvances text.noNul behind) Stop.endless (stripBase text.bytes behind)
    (text.bytes.length + 1) (Nat.lt_succ_self _)
  exact ⟨buf,left,fun fuel enough => loopStable ran enough⟩

theorem stripInPlace (text : CString) (behind : Bytes) :
    ∃ buf, Left text.bytes behind buf ∧ stripSpacesInPlace (text.bytes ++ 0 :: behind) = .ok buf := by
  obtain ⟨buf,left,ran⟩ := stripEnds text behind
  refine ⟨buf,left,ran _ ?_⟩
  rw [List.length_append, List.length_cons]
  omega

theorem squeezedSublist (text : Bytes) : (squeezed text).Sublist (text.map colonBlank) :=
  (List.destutter_sublist NotBoth _).trans (List.dropWhile_sublist _)

theorem squeezedNoNul (text : CString) : 0 ∉ squeezed text.bytes := by
  intro member
  obtain ⟨c,among,zero⟩ := List.mem_map.mp ((squeezedSublist text.bytes).subset member)
  unfold colonBlank at zero
  split at zero
  · exact absurd zero (by decide)
  · exact text.noNul (zero ▸ among)

theorem stripInPlaceText (text : CString) (behind : Bytes) :
    ∃ buf, stripSpacesInPlace (text.bytes ++ 0 :: behind) = .ok buf ∧ (cut buf).bytes = stripSpaces true text.bytes := by
  obtain ⟨buf,⟨leftover,_,same⟩,ran⟩ := stripInPlace text behind
  refine ⟨buf,ran,?_⟩
  rw [same, cutLine (squeezedNoNul text), stripSqueezed]

theorem squeezedNoColon (text : Bytes) : 58 ∉ squeezed text := by
  intro member
  obtain ⟨c,_,colon⟩ := List.mem_map.mp ((squeezedSublist text).subset member)
  unfold colonBlank at colon
  split at colon
  · exact absurd colon (by decide)
  · contradiction

theorem squeezedChain (text : Bytes) : (32 :: squeezed text).IsChain NotBoth := by
  have chain := List.isChain_destutter' NotBoth (text.map colonBlank) 32
  rwa [stripDestutter text 32 true (by simp), stripSqueezed] at chain

theorem squeezedSingle (text : Bytes) : ¬ [32,32] <:+: squeezed text := by
  intro twice
  have apart := List.IsChain.infix (squeezedChain text).tail twice
  exact (List.isChain_cons_cons.mp apart).1 ⟨rfl,rfl⟩

theorem squeezedShort (text : Bytes) : (squeezed text).length ≤ text.length := by
  have short := (squeezedSublist text).length_le
  rwa [List.length_map] at short

theorem stripKept (spaced : Bool) (text : Bytes) :
    (stripSpaces spaced text).filter (fun c => c ≠ 32) = text.filter (fun c => c ≠ 32 ∧ c ≠ 58) := by
  induction text generalizing spaced with
  | nil => rfl
  | cons c rest ih =>
    by_cases blank : colonBlank c = 32
    · obtain ⟨again,first⟩ := stripBlank blank rest
      have dropped : ¬ (c ≠ 32 ∧ c ≠ 58) := by
        intro other
        unfold colonBlank at blank
        rw [if_neg other.2] at blank
        exact other.1 blank
      rw [List.filter_cons_of_neg (by simpa using dropped)]
      cases spaced with
      | true => rw [again, ih]
      | false => rw [first, List.filter_cons_of_neg (by decide), ih]
    · obtain ⟨same,kept⟩ := stripOther blank spaced rest
      have other : c ≠ 32 ∧ c ≠ 58 := by
        refine ⟨fun h => blank (same.trans h),?_⟩
        intro colon
        subst colon
        exact blank rfl
      rw [kept, List.filter_cons_of_pos (by simpa using other.1), List.filter_cons_of_pos (by simpa using other), ih]

theorem squeezedAgain (text : Bytes) : squeezed (squeezed text) = squeezed text := by
  have plain : (squeezed text).map colonBlank = squeezed text := by
    have same : ∀ c ∈ squeezed text, colonBlank c = id c := by
      intro c member
      exact if_neg (fun colon : c = 58 => squeezedNoColon text (colon ▸ member))
    rw [List.map_congr_left same, List.map_id]
  have again := stripDestutter (squeezed text) 32 true (by simp)
  rw [plain, List.destutter'_of_isChain_cons _ _ (squeezedChain text), stripSqueezed] at again
  exact (List.cons.inj again).2.symm

theorem stripSpacesSqueezes (text : CString) (behind : Bytes) :
    ∃ leftover, leftover.length + (squeezed text.bytes).length = text.bytes.length ∧
      (∀ fuel, text.bytes.length < fuel →
        loop stripRound .endless fuel (stripStart (text.bytes ++ 0 :: behind)) =
          .ok (squeezed text.bytes ++ 0 :: (leftover ++ behind))) ∧
      stripSpacesInPlace (text.bytes ++ 0 :: behind) = .ok (squeezed text.bytes ++ 0 :: (leftover ++ behind)) ∧
      (∀ m, Visits stripRound (stripStart (text.bytes ++ 0 :: behind)) m →
        m.s ≤ m.p ∧ m.p ≤ text.bytes.length ∧ m.buf.drop m.p = text.bytes.drop m.p ++ 0 :: behind) ∧
      58 ∉ squeezed text.bytes ∧ ¬ [32,32] <:+: squeezed text.bytes ∧
      (squeezed text.bytes).filter (fun c => c ≠ 32) = text.bytes.filter (fun c => c ≠ 32 ∧ c ≠ 58) ∧
      (squeezed text.bytes).length ≤ text.bytes.length ∧
      stripSpacesInPlace (squeezed text.bytes ++ 0 :: (leftover ++ behind)) =
        .ok (squeezed text.bytes ++ 0 :: (leftover ++ behind)) := by
  obtain ⟨buf,⟨leftover,lost,rfl⟩,ran⟩ := stripEnds text behind
  refine ⟨leftover,lost,ran,ran _ (by rw [List.length_append, List.length_cons]; omega),?_,squeezedNoColon _,
    squeezedSingle _,?_,squeezedShort _,?_⟩
  · intro m visited
    obtain ⟨written,gap,unread,h⟩ := visitsInvariant (stripAdvances text.noNul behind)
      (stripBase text.bytes behind) visited
    have ahead := h.ahead
    have place : m.p = (written ++ gap).length := by rw [h.p, List.length_append]
    refine ⟨by rw [h.s, h.p]; omega,by omega,?_⟩
    rw [h.buf, ← List.append_assoc, place, List.drop_left, ← place, h.left]
  · rw [← stripSqueezed]
    exact stripKept true text.bytes
  · obtain ⟨buf,⟨others,still,same⟩,again⟩ := stripInPlace ⟨squeezed text.bytes,squeezedNoNul text⟩ (leftover ++ behind)
    simp only [squeezedAgain] at still same
    have nothing : others = [] := List.length_eq_zero_iff.mp (by omega)
    rw [nothing, List.nil_append] at same
    rw [← same]
    exact same ▸ again

end VmpRl.StripSpaces
