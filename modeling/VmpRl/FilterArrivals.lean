import VmpRl.FilterCalls

/-! What `filter_pbrpc_messages` answers at every call while the bytes of a stream of frames arrive,
cut anywhere: BEV_OK before a complete frame and BEV_NEED_MORE otherwise, or not. -/
namespace VmpRl.FilterArrivals
open Octets CRuntime PbrpcXdr FilterCalls

/- The calls made while the chunks arrive. Between two arrivals the reader may take bytes from
`dst`, so it can hold anything when the next chunk comes. -/
inductive CallOn : Evbuffers → List Bytes → Evbuffers → Prop where
  | now {b c : Evbuffers} {chunk : Bytes} {rest : List Bytes}
      (call : Calls {b with src := b.src ++ chunk} c) : CallOn b (chunk :: rest) c
  | later {b kept c : Evbuffers} {chunk dst : Bytes} {rest : List Bytes} {processed : Bool}
      (drained : drain ((b.src ++ chunk).length + 1) {b with src := b.src ++ chunk} false =
        .ok (processed,kept))
      (call : CallOn ⟨kept.src,dst⟩ rest c) : CallOn b (chunk :: rest) c

def Complete (src : Bytes) : Prop := 8 ≤ src.length ∧ 8 + readBE (src.take 8) ≤ src.length

structure Judged (c : Evbuffers) : Prop where
  whole : Complete c.src → ∃ moved, filterPbrpcMessages c = (.ok,moved)
  part : ¬ Complete c.src → filterPbrpcMessages c = (.needMore,c)

/- The frames that are complete fit an int, and what is behind them is nothing or has its length. -/
def InTime (done : List Bytes) (rest : Bytes) : Prop :=
  (∀ body ∈ done, Small body) ∧ (rest = [] ∨ 8 ≤ rest.length)

theorem shortPart {rest : Bytes} (short : Framing.Short lengthPrefix rest) : ¬ Complete rest := by
  intro h
  have needed : Framing.need lengthPrefix rest = some (8 + readBE (rest.take 8)) := if_pos h.1
  have lacks := (short _ needed).1
  have whole := h.2
  omega

theorem frameComplete {body : Bytes} (bounded : body.length < 2 ^ 63) (rest : Bytes) :
    Complete (frame body ++ rest) := by
  have size : (frame body ++ rest).length = 8 + body.length + rest.length := by
    rw [List.length_append, frameSize]
  refine ⟨by omega,?_⟩
  rw [headerOfFrame, readBEWritten 8 _ (by simp; omega), size]
  omega

theorem partJudged {rest : Bytes} (short : Framing.Short lengthPrefix rest) (dst : Bytes) :
    Judged ⟨rest,dst⟩ ↔ 8 ≤ rest.length := by
  have part := shortPart short
  constructor
  · intro judged
    have answer := judged.part part
    by_contra few
    rw [filterNoLength (Nat.lt_of_not_le few)] at answer
    cases answer
  · intro long
    have needed : Framing.need lengthPrefix rest = some (8 + readBE (rest.take 8)) := if_pos long
    have lacks := short _ needed
    have fits : 8 + readBE (rest.take 8) < 2 ^ 64 := lacks.2
    have more : rest.length < expectedLen rest := by
      unfold expectedLen
      omega
    exact ⟨fun whole => absurd whole part,fun _ => filterNeedMore long more⟩

theorem frameJudged {body : Bytes} (bounded : body.length < 2 ^ 63) (rest dst : Bytes) :
    Judged ⟨frame body ++ rest,dst⟩ ↔ Small body := by
  have complete := frameComplete bounded rest
  constructor
  · intro judged
    obtain ⟨moved,went⟩ := judged.whole complete
    obtain ⟨_,_,survives,_⟩ := filterOk went
    have expected : expectedLen (frame body ++ rest) = 8 + body.length := by
      unfold expectedLen
      rw [headerOfFrame, readBEWritten 8 _ (by simp; omega)]
      omega
    simp only [expected] at survives
    exact (survivesSmall (by omega)).mp survives
  · intro small
    exact ⟨fun _ => ⟨_,filterFrame small rest dst⟩,fun part => absurd complete part⟩

theorem callsShort {rest dst : Bytes} (short : Framing.Short lengthPrefix rest) {c : Evbuffers}
    (h : Calls ⟨rest,dst⟩ c) : c = ⟨rest,dst⟩ := by
  obtain ⟨r,other,stays⟩ := filterShort short dst
  cases h with
  | first => rfl
  | again went left later =>
    rw [stays] at went
    exact absurd (Prod.mk.inj went).1 other

theorem loopJudged (done : List Bytes) (bounded : ∀ body ∈ done, body.length < 2 ^ 63) {rest : Bytes}
    (short : Framing.Short lengthPrefix rest) (dst : Bytes) :
    (∀ c, Calls ⟨frames done ++ rest,dst⟩ c → c.src ≠ [] → Judged c) ↔ InTime done rest := by
  induction done generalizing dst with
  | nil =>
    simp only [frames, Framing.framesNil, List.nil_append]
    constructor
    · intro judged
      refine ⟨by simp,?_⟩
      by_cases none : rest = []
      · exact Or.inl none
      · exact Or.inr ((partJudged short dst).mp (judged _ (.first _) none))
    · intro inTime c called some
      have same := callsShort short called
      subst same
      rcases inTime.2 with none | long
      · exact absurd none some
      · exact (partJudged short dst).mpr long
  | cons body done ih =>
    have split : frames (body :: done) ++ rest = frame body ++ (frames done ++ rest) := by
      simp [frames, frame]
    have filled : frame body ++ (frames done ++ rest) ≠ [] := by
      intro none
      have size := congrArg List.length none
      rw [List.length_append, frameSize, List.length_nil] at size
      omega
    have first := frameJudged (bounded body List.mem_cons_self) (frames done ++ rest) dst
    have later := ih (fun b member => bounded b (List.mem_cons_of_mem _ member)) (dst ++ frame body)
    rw [split]
    constructor
    · intro judged
      have small := first.mp (judged _ (.first _) filled)
      have went := filterFrame small (frames done ++ rest) dst
      have behind : InTime done rest := by
        apply later.mp
        intro c called some
        by_cases none : frames done ++ rest = []
        · cases called with
          | first => exact absurd none some
          | again went left later =>
            rw [none, filterNoLength (by simp)] at went
            cases went
        · exact judged c (.again went none called) some
      refine ⟨?_,behind.2⟩
      intro b member
      rcases List.mem_cons.mp member with rfl | among
      · exact small
      · exact behind.1 b among
    · intro inTime c called some
      have small := inTime.1 body List.mem_cons_self
      have went := filterFrame small (frames done ++ rest) dst
      cases called with
      | first => exact first.mpr small
      | again moved left called =>
        rw [went] at moved
        obtain ⟨_,rfl⟩ := Prod.mk.inj moved
        exact later.mpr ⟨fun b member => inTime.1 b (List.mem_cons_of_mem _ member),inTime.2⟩ c called some

theorem inTimeAppend {done between : List Bytes} {rest tail : Bytes} (early : InTime done rest)
    (late : InTime between tail) : InTime (done ++ between) tail := by
  refine ⟨?_,late.2⟩
  intro body member
  rcases List.mem_append.mp member with first | second
  · exact early.1 body first
  · exact late.1 body second

theorem drainedInTime {bodies : List Bytes} {src more : Bytes} {done todo : List Bytes} {rest : Bytes}
    (cut : Framing.Cut lengthPrefix bodies src more done todo rest) (fits : InTime done rest) (dst : Bytes) :
    drain (src.length + 1) ⟨src,dst⟩ false = .ok (!done.isEmpty,⟨rest,dst ++ frames done⟩) := by
  have few : done.length < src.length + 1 := by
    have counted := frameCount done
    rw [cut.taken, List.length_append]
    exact Nat.lt_succ_of_le (Nat.le_trans counted (Nat.le_add_right _ _))
  have moved := drainFrames done fits.1 cut.short dst _ few false
  rw [Bool.false_or] at moved
  rw [cut.taken] at moved ⊢
  exact moved

def OnTime (bodies : List Bytes) (part : Bytes) (chunks : List Bytes) (more : Bytes) : Prop :=
  ∀ before after, chunks = before ++ after → before ≠ [] → ∀ done todo rest,
    Framing.Cut lengthPrefix bodies (part ++ before.flatten) (after.flatten ++ more) done todo rest →
    InTime done rest

theorem arrivalStep {bodies : List Bytes} {part chunk more : Bytes} {chunks done todo : List Bytes} {rest : Bytes}
    (cut : Framing.Cut lengthPrefix bodies (part ++ chunk) more done todo rest)
    (bounded : ∀ body ∈ done, body.length < 2 ^ 63) (dst : Bytes) :
    (∀ c, CallOn ⟨part,dst⟩ (chunk :: chunks) c → c.src ≠ [] → Judged c) ↔
      InTime done rest ∧ ∀ next c, CallOn ⟨rest,next⟩ chunks c → c.src ≠ [] → Judged c := by
  have loop := loopJudged done bounded cut.short dst
  constructor
  · intro judged
    have fits : InTime done rest := loop.mp (fun c called => judged c (.now (by
      show Calls ⟨part ++ chunk,dst⟩ c
      rw [cut.taken]
      exact called)))
    exact ⟨fits,fun next c called => judged c (.later (drainedInTime cut fits dst) called)⟩
  · intro h c called some
    obtain ⟨fits,judged⟩ := h
    cases called with
    | now call =>
      apply loop.mpr fits c _ some
      rw [← cut.taken]
      exact call
    | later went call =>
      have kept := went.symm.trans (drainedInTime cut fits dst)
      obtain ⟨_,rfl⟩ := Prod.mk.inj (Except.ok.inj kept)
      exact judged _ c call some

theorem onTimeStep {bodies : List Bytes} (small : ∀ body ∈ bodies, body.length < lengthPrefix.bound)
    {part chunk more : Bytes} {chunks done todo : List Bytes} {rest : Bytes}
    (cut : Framing.Cut lengthPrefix bodies (part ++ chunk) (chunks.flatten ++ more) done todo rest) :
    OnTime bodies part (chunk :: chunks) more ↔ InTime done rest ∧ OnTime todo rest chunks more := by
  have smallTodo : ∀ body ∈ todo, body.length < lengthPrefix.bound :=
    fun body member => small body (by rw [cut.order]; exact List.mem_append_right _ member)
  constructor
  · intro inTime
    refine ⟨inTime [chunk] chunks rfl (by simp) done todo rest (by simpa using cut),?_⟩
    intro before after same some later left tail whole
    have cut' : Framing.Cut lengthPrefix bodies (part ++ chunk) (before.flatten ++ (after.flatten ++ more))
        done todo rest := by
      rw [same] at cut
      simpa using cut
    have onward := Framing.cutOnward lengthPrefix cut' whole
    have both := inTime (chunk :: before) after (by rw [same]; rfl) (by simp) (done ++ later) left tail
      (by simpa using onward)
    exact ⟨fun body member => both.1 body (List.mem_append_right _ member),both.2⟩
  · intro h before after same some later left tail whole
    obtain ⟨fits,onTime⟩ := h
    obtain ⟨others,rfl,rfl⟩ : ∃ others, before = chunk :: others ∧ chunks = others ++ after := by
      cases before with
      | nil => exact absurd rfl some
      | cons head others =>
        obtain ⟨rfl,tails⟩ := List.cons.inj same
        exact ⟨others,rfl,tails⟩
    have joined : part ++ (chunk :: others).flatten = (part ++ chunk) ++ others.flatten := by simp
    have cut' : Framing.Cut lengthPrefix bodies (part ++ chunk) (others.flatten ++ (after.flatten ++ more))
        done todo rest := by
      simpa using cut
    rw [joined] at whole
    obtain ⟨between,rfl,behind⟩ := Framing.cutBack lengthPrefix small cut' whole
    by_cases last : others = []
    · subst last
      rw [List.flatten_nil, List.append_nil] at behind
      obtain ⟨rfl,rfl⟩ := Framing.cutShort lengthPrefix smallTodo cut.short behind
      rw [List.append_nil]
      exact fits
    · exact inTimeAppend fits (onTime others after rfl last between left tail behind)

/- From a short part of the stream on: the induction is on the chunks, and what is pending is a
short part again after each of them. -/
theorem arrivalsFrom (bodies : List Bytes) (bounded : ∀ body ∈ bodies, body.length < 2 ^ 63)
    (chunks : List Bytes) (more part dst : Bytes) (short : Framing.Short lengthPrefix part)
    (stream : part ++ (chunks.flatten ++ more) = frames bodies) :
    (∀ c, CallOn ⟨part,dst⟩ chunks c → c.src ≠ [] → Judged c) ↔ OnTime bodies part chunks more := by
  have small : ∀ body ∈ bodies, body.length < lengthPrefix.bound := by
    intro body member
    have := bounded body member
    show body.length < 2 ^ 64 - 8
    omega
  induction chunks generalizing bodies part dst with
  | nil =>
    constructor
    · intro _ before after same some
      exact absurd (List.append_eq_nil_iff.mp same.symm).1 some
    · intro _ c called
      cases called
  | cons chunk chunks ih =>
    have cutting : (part ++ chunk) ++ (chunks.flatten ++ more) = frames bodies := by
      simpa using stream
    obtain ⟨done,todo,rest,cut⟩ := Framing.cutStream lengthPrefix small cutting
    have inDone : ∀ body ∈ done, body.length < 2 ^ 63 :=
      fun body member => bounded body (by rw [cut.order]; exact List.mem_append_left _ member)
    have inTodo : ∀ body ∈ todo, body.length < 2 ^ 63 :=
      fun body member => bounded body (by rw [cut.order]; exact List.mem_append_right _ member)
    have smallTodo : ∀ body ∈ todo, body.length < lengthPrefix.bound :=
      fun body member => small body (by rw [cut.order]; exact List.mem_append_right _ member)
    have next (dst : Bytes) := ih todo inTodo rest dst cut.short (by simpa using cut.stream) smallTodo
    rw [arrivalStep cut inDone dst, onTimeStep small cut]
    constructor
    · intro h
      exact ⟨h.1,(next []).mp (h.2 [])⟩
    · intro h
      exact ⟨h.1,fun dst => (next dst).mpr h.2⟩

def ArrivalsJudged (dst : Bytes) (chunks : List Bytes) : Prop :=
  ∀ c, CallOn ⟨[],dst⟩ chunks c → c.src ≠ [] → Judged c

/- Along the arrival of a stream of frames, however it is cut, every call on some bytes is answered
as due exactly if after every arrival the complete frames fit an int and the bytes behind them
are none or at least eight. -/
theorem arrivalsJudged (bodies : List Bytes) (bounded : ∀ body ∈ bodies, body.length < 2 ^ 63)
    (chunks : List Bytes) (more dst : Bytes) (stream : chunks.flatten ++ more = frames bodies) :
    ArrivalsJudged dst chunks ↔
      ∀ before after, chunks = before ++ after → before ≠ [] → ∀ done todo rest,
        Framing.Cut lengthPrefix bodies before.flatten (after.flatten ++ more) done todo rest →
        InTime done rest :=
  arrivalsFrom bodies bounded chunks more [] dst (Framing.shortNil _) stream

theorem cutWhole {bodies : List Bytes} (small : ∀ body ∈ bodies, body.length < lengthPrefix.bound) {src : Bytes}
    {done todo : List Bytes} {rest : Bytes} (c : Framing.Cut lengthPrefix bodies src [] done todo rest) :
    done = bodies ∧ rest = [] := by
  have order := c.order
  have stream := c.stream
  rw [List.append_nil] at stream
  cases todo with
  | nil =>
    rw [List.append_nil] at order
    exact ⟨order.symm,stream⟩
  | cons body others =>
    have inside := small body (by rw [order]; simp)
    rw [Framing.framesCons] at stream
    exact absurd (stream ▸ c.short) (Framing.shortNoFrame lengthPrefix inside)

theorem lengthFirst : ArrivalsJudged [] [be 8 2,[1,2]] := by
  have bounded : ∀ body ∈ ([[1,2]] : List Bytes), body.length < 2 ^ 63 := by decide
  have small : ∀ body ∈ ([[1,2]] : List Bytes), body.length < lengthPrefix.bound := by decide
  have part : Framing.Short lengthPrefix (be 8 2) := by
    intro n needed
    cases needed
    decide
  apply (arrivalsJudged [[1,2]] bounded [be 8 2,[1,2]] [] [] (by decide)).mpr
  intro before after same some done todo rest cut
  cases before with
  | nil => exact absurd rfl some
  | cons first others =>
    obtain ⟨rfl,tail⟩ := List.cons.inj same
    cases others with
    | nil =>
      obtain ⟨rfl,rfl⟩ := Framing.cutShort lengthPrefix small part (by simpa using cut)
      exact ⟨by simp,Or.inr (by decide)⟩
    | cons second others =>
      obtain ⟨rfl,none⟩ := List.cons.inj tail
      obtain ⟨rfl,rfl⟩ := List.append_eq_nil_iff.mp none.symm
      obtain ⟨rfl,rfl⟩ := cutWhole small cut
      have one : Small [1,2] := by
        show 8 + 2 < 2 ^ 31
        decide
      exact ⟨fun body member => List.mem_singleton.mp member ▸ one,Or.inl rfl⟩

theorem firstByteFails :
    [[0],(frame [1,2]).drop 1].flatten = frames [[1,2]] ∧
      CallOn ⟨[],[]⟩ [[0],(frame [1,2]).drop 1] ⟨[0],[]⟩ ∧
      filterPbrpcMessages ⟨[0],[]⟩ = (.error,⟨[0],[]⟩) ∧
      ¬ ArrivalsJudged [] [[0],(frame [1,2]).drop 1] := by
  refine ⟨by decide,.now (.first _),rfl,?_⟩
  intro all
  have judged := all _ (.now (.first _)) (by simp)
  have answer := judged.part (fun whole => absurd whole.1 (by decide))
  cases answer

end VmpRl.FilterArrivals
