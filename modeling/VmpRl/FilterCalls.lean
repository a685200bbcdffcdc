import VmpRl.PbrpcXdr

/-! The calls of `filter_pbrpc_messages` that libevent's loop makes: what each of them moves, and when
the loop ends. -/
namespace VmpRl.FilterCalls
open Octets CRuntime PbrpcXdr

inductive Calls : Evbuffers → Evbuffers → Prop where
  | first (b : Evbuffers) : Calls b b
  | again {b moved c : Evbuffers} (went : filterPbrpcMessages b = (.ok,moved)) (left : moved.src ≠ [])
      (later : Calls moved c) : Calls b c

def expectedLen (src : Bytes) : Nat := (8 + readBE (src.take 8)) % 2 ^ 64

def moveBytes (b : Evbuffers) (n : Nat) : Evbuffers := ⟨b.src.drop n,b.dst ++ b.src.take n⟩

theorem filterNoLength {b : Evbuffers} (short : b.src.length < 8) :
    filterPbrpcMessages b = (.error,b) := by
  simp only [filterPbrpcMessages, evbufferPullup, if_neg (Nat.not_le_of_lt short)]

theorem filterNeedMore {b : Evbuffers} (long : 8 ≤ b.src.length) (lacks : b.src.length < expectedLen b.src) :
    filterPbrpcMessages b = (.needMore,b) := by
  simp only [expectedLen] at lacks
  simp only [filterPbrpcMessages, evbufferPullup, if_pos long, if_pos lacks]

theorem filterMoves {b : Evbuffers} (long : 8 ≤ b.src.length) (enough : expectedLen b.src ≤ b.src.length) :
    filterPbrpcMessages b =
      (if Survives (expectedLen b.src) then .ok else .error,moveBytes b (expectedLen b.src)) := by
  have most : min (expectedLen b.src) b.src.length = expectedLen b.src := Nat.min_eq_left enough
  have inside := Nat.not_lt_of_le enough
  simp only [expectedLen] at inside most
  by_cases whole : Survives (expectedLen b.src)
  · have same : ¬ toSize (toInt ((8 + readBE (b.src.take 8)) % 2 ^ 64 : Nat)) ≠
        (8 + readBE (b.src.take 8)) % 2 ^ 64 := not_not.mpr whole
    rw [if_pos whole]
    simp only [filterPbrpcMessages, evbufferPullup, if_pos long, if_neg inside, evbufferRemoveBuffer, most,
      if_neg same]
    rfl
  · have other : toSize (toInt ((8 + readBE (b.src.take 8)) % 2 ^ 64 : Nat)) ≠
        (8 + readBE (b.src.take 8)) % 2 ^ 64 := whole
    rw [if_neg whole]
    simp only [filterPbrpcMessages, evbufferPullup, if_pos long, if_neg inside, evbufferRemoveBuffer, most,
      if_pos other]
    rfl

theorem filterOk {b moved : Evbuffers} (went : filterPbrpcMessages b = (.ok,moved)) :
    8 ≤ b.src.length ∧ expectedLen b.src ≤ b.src.length ∧ Survives (expectedLen b.src) ∧
      moved = moveBytes b (expectedLen b.src) := by
  by_cases long : 8 ≤ b.src.length
  · by_cases enough : expectedLen b.src ≤ b.src.length
    · rw [filterMoves long enough] at went
      obtain ⟨result,same⟩ := Prod.mk.inj went
      split at result
      · rename_i whole
        exact ⟨long,enough,whole,same.symm⟩
      · cases result
    · rw [filterNeedMore long (Nat.lt_of_not_le enough)] at went
      cases went
  · rw [filterNoLength (Nat.lt_of_not_le long)] at went
    cases went

def Overlong (src : Bytes) : Prop := 8 ≤ src.length ∧ 2 ^ 64 - 8 ≤ readBE (src.take 8)

def Wraps (src : Bytes) : Prop :=
  ∃ bodies rest, (∀ body ∈ bodies, Survives (8 + body.length)) ∧ src = frames bodies ++ rest ∧ Overlong rest

def Progresses (b : Evbuffers) : Prop :=
  ∀ moved, filterPbrpcMessages b = (.ok,moved) →
    ∃ n, 8 ≤ n ∧ n ≤ b.src.length ∧ moved = moveBytes b n

theorem lengthField {src : Bytes} (long : 8 ≤ src.length) :
    readBE (src.take 8) < 2 ^ 64 ∧ be 8 (readBE (src.take 8)) = src.take 8 := by
  have eight : (src.take 8).length = 8 := by simp [long]
  have bound := readBEBound (src.take 8)
  have back := beRead (src.take 8)
  rw [eight] at bound back
  exact ⟨bound,back⟩

theorem expectedExact {src : Bytes} (long : 8 ≤ src.length) (plain : ¬ Overlong src) :
    expectedLen src = 8 + readBE (src.take 8) := by
  have below : ¬ 2 ^ 64 - 8 ≤ readBE (src.take 8) := fun large => plain ⟨long,large⟩
  unfold expectedLen
  omega

theorem expectedWrapped {src : Bytes} (h : Overlong src) : expectedLen src < 8 := by
  obtain ⟨long,large⟩ := h
  have bound := (lengthField long).1
  unfold expectedLen
  omega

theorem firstFrame {src : Bytes} (long : 8 ≤ src.length) (enough : 8 + readBE (src.take 8) ≤ src.length) :
    ∃ body, body.length = readBE (src.take 8) ∧ src = frame body ++ src.drop (8 + readBE (src.take 8)) := by
  have size : ((src.drop 8).take (readBE (src.take 8))).length = readBE (src.take 8) := by
    rw [List.length_take, List.length_drop]
    omega
  refine ⟨(src.drop 8).take (readBE (src.take 8)),size,?_⟩
  have header : frame ((src.drop 8).take (readBE (src.take 8))) =
      src.take 8 ++ (src.drop 8).take (readBE (src.take 8)) := by
    show be 8 _ ++ _ = _
    rw [size, (lengthField long).2]
  rw [header, List.append_assoc, ← List.drop_drop, List.take_append_drop, List.take_append_drop]

theorem wrapsBehind {body : Bytes} (whole : Survives (8 + body.length)) {rest : Bytes} (h : Wraps rest) :
    Wraps (frame body ++ rest) := by
  obtain ⟨bodies,tail,survive,same,overlong⟩ := h
  refine ⟨body :: bodies,tail,?_,by rw [same]; simp [frames, frame],overlong⟩
  intro b member
  rcases List.mem_cons.mp member with rfl | among
  · exact whole
  · exact survive b among

theorem notOverlong {src : Bytes} (plain : ¬ Wraps src) : ¬ Overlong src :=
  fun overlong => plain ⟨[],src,by simp,by simp [frames],overlong⟩

theorem callProgress {b : Evbuffers} (plain : ¬ Wraps b.src) : Progresses b ∧
    ∀ moved, filterPbrpcMessages b = (.ok,moved) → ¬ Wraps moved.src ∧ moved.src.length + 8 ≤ b.src.length := by
  have exact_ (long : 8 ≤ b.src.length) := expectedExact long (notOverlong plain)
  constructor
  · intro moved went
    obtain ⟨long,enough,_,same⟩ := filterOk went
    exact ⟨expectedLen b.src,by rw [exact_ long]; exact Nat.le_add_right _ _,enough,same⟩
  · intro moved went
    obtain ⟨long,enough,whole,same⟩ := filterOk went
    rw [exact_ long] at enough whole same
    obtain ⟨body,size,first⟩ := firstFrame long enough
    have left : moved.src = b.src.drop (8 + readBE (b.src.take 8)) := by rw [same]; rfl
    constructor
    · intro h
      rw [left] at h
      apply plain
      rw [first]
      exact wrapsBehind (by rw [size]; exact whole) h
    · rw [left, List.length_drop]
      omega

theorem callsProgress {b c : Evbuffers} (plain : ¬ Wraps b.src) (h : Calls b c) : Progresses c := by
  induction h with
  | first b => exact (callProgress plain).1
  | again went left later ih => exact ih ((callProgress plain).2 _ went).1

/- The loop ends: the induction is on the calls that are left, each for eight bytes. -/
theorem drainEnds {b : Evbuffers} (plain : ¬ Wraps b.src) {fuel : Nat} (enough : b.src.length / 8 < fuel)
    (processed : Bool) : Returns (drain fuel b processed) := by
  induction fuel generalizing b processed with
  | zero => omega
  | succ fuel ih =>
    unfold drain
    cases result : filterPbrpcMessages b with
    | mk r moved =>
      cases r with
      | needMore => exact ⟨_,rfl⟩
      | error => exact ⟨_,rfl⟩
      | ok =>
        obtain ⟨still,fewer⟩ := (callProgress plain).2 moved result
        dsimp only
        split
        · exact ⟨_,rfl⟩
        · exact ih still (by omega) true

theorem callsBehind (bodies : List Bytes) (whole : ∀ body ∈ bodies, Survives (8 + body.length)) {rest : Bytes}
    (more : rest ≠ []) (dst : Bytes) : ∃ c, Calls ⟨frames bodies ++ rest,dst⟩ c ∧ c.src = rest := by
  induction bodies generalizing dst with
  | nil => exact ⟨_,.first _,rfl⟩
  | cons body bodies ih =>
    have survives := whole body List.mem_cons_self
    have fits : 8 + body.length < 2 ^ 64 := by
      unfold Survives toSize at survives
      omega
    have split : frames (body :: bodies) ++ rest = frame body ++ (frames bodies ++ rest) := by
      simp [frames, frame]
    have size : (frame body ++ (frames bodies ++ rest)).length = 8 + body.length + (frames bodies ++ rest).length := by
      rw [List.length_append, frameSize]
    have expected : expectedLen (frame body ++ (frames bodies ++ rest)) = (frame body).length := by
      unfold expectedLen
      rw [headerOfFrame, readBEWritten 8 _ (by simp; omega), frameSize]
      omega
    have went := filterMoves (b := ⟨frame body ++ (frames bodies ++ rest),dst⟩) (by simp only [size]; omega)
      (by simp only [expected, size, frameSize]; omega)
    simp only [expected, moveBytes, List.drop_left, List.take_left] at went
    rw [if_pos (by rw [frameSize]; exact survives)] at went
    obtain ⟨c,later,there⟩ := ih (fun b member => whole b (List.mem_cons_of_mem _ member)) (dst ++ frame body)
    rw [split]
    exact ⟨c,.again went (by simp [more]) later,there⟩

/- Every call of the loop that returns BEV_OK moves eight bytes or more and the loop ends after at
most `length src / 8 + 1` calls, exactly if the loop meets no length field past the 64 bits. -/
theorem filterProgress (b : Evbuffers) (processed : Bool) :
    ((∀ c, Calls b c → Progresses c) ∧ Returns (drain (b.src.length / 8 + 1) b processed)) ↔
      ¬ Wraps b.src := by
  constructor
  · intro h wraps
    obtain ⟨bodies,rest,whole,same,overlong⟩ := wraps
    have more : rest ≠ [] := by
      intro none
      have long := overlong.1
      simp [none] at long
    obtain ⟨c,called,there⟩ := callsBehind bodies whole more b.dst
    rw [← same] at called
    have small := expectedWrapped overlong
    have long := overlong.1
    rw [← there] at small long
    have went := filterMoves long (Nat.le_of_lt (Nat.lt_of_lt_of_le small long))
    rw [if_pos ((survivesSmall (by omega)).mpr (by omega))] at went
    obtain ⟨n,eight,inside,moved⟩ := h.1 c called _ went
    have left := congrArg (fun e : Evbuffers => e.src.length) moved
    simp only [moveBytes, List.length_drop] at left
    omega
  · intro plain
    exact ⟨fun c called => callsProgress plain called,drainEnds plain (Nat.lt_succ_self _) processed⟩

/- A length field of 2^64 - 8: the call moves nothing and returns BEV_OK, so the loop never ends. -/
def stuck : Evbuffers := ⟨be 8 (2 ^ 64 - 8),[]⟩

theorem lengthWraps :
    filterPbrpcMessages stuck = (.ok,stuck) ∧ ¬ Progresses stuck ∧
      ∀ fuel processed, drain fuel stuck processed = .error .endless := by
  have still : filterPbrpcMessages stuck = (.ok,stuck) := by decide +kernel
  refine ⟨still,?_,?_⟩
  · intro progress
    obtain ⟨n,eight,inside,moved⟩ := progress _ still
    have left := congrArg (fun e : Evbuffers => e.src.length) moved
    have size : stuck.src.length = 8 := by decide +kernel
    simp only [moveBytes, List.length_drop] at left
    omega
  · intro fuel
    induction fuel with
    | zero => exact fun _ => rfl
    | succ fuel ih =>
      intro processed
      have more : stuck.src ≠ [] := by decide +kernel
      unfold drain
      simp only [still, if_neg more, ih]

end VmpRl.FilterCalls
