import VmpRl.PbrpcXdr

/-! One direction of a connection while both ends are at work: the stream of frames grows at its end, its bytes come
in in pieces of any size, and `generic_read_cb` may lack memory, which leaves the frames in the filtered input until
the next ones come in. -/
namespace VmpRl.Lanes
open Octets CRuntime PbrpcXdr

variable {ι σ : Type}

/- Of the stream of `items`, `crossed` bytes have come in at a link. Those in `taken` were handed to the callback, those
in `kept` are in the filtered input, and the first of `todo` is not complete. -/
structure Lane (body : ι → Bytes) (items : List ι) (crossed : Nat) (bufs : Evbuffers) (taken kept todo : List ι) :
    Prop where
  order : items = taken ++ kept ++ todo
  within : crossed ≤ (frames (items.map body)).length
  cut : Framing.Cut lengthPrefix (items.map body) ((frames (items.map body)).take crossed)
    ((frames (items.map body)).drop crossed) ((taken ++ kept).map body) (todo.map body) bufs.src
  filtered : bufs.dst = frames (kept.map body)

variable {body : ι → Bytes} {items : List ι} {crossed : Nat} {bufs : Evbuffers} {taken kept todo : List ι}

theorem laneFresh (body : ι → Bytes) : Lane body [] 0 ⟨[],[]⟩ [] [] [] :=
  ⟨rfl,Nat.zero_le _,⟨rfl,rfl,rfl,Framing.shortNil lengthPrefix⟩,rfl⟩

theorem laneGrows (lane : Lane body items crossed bufs taken kept todo) (later : List ι) :
    Lane body (items ++ later) crossed bufs taken kept (todo ++ later) := by
  have grown := Framing.cutGrown lengthPrefix lane.cut (later.map body)
  have whole : (items ++ later).map body = items.map body ++ later.map body := List.map_append
  have behind : (todo ++ later).map body = todo.map body ++ later.map body := List.map_append
  have stream : frames (items.map body ++ later.map body) = frames (items.map body) ++ frames (later.map body) :=
    Framing.framesAppend lengthPrefix _ _
  refine ⟨by rw [lane.order, List.append_assoc],?_,?_,lane.filtered⟩
  · rw [whole, stream, List.length_append]
    exact Nat.le_trans lane.within (Nat.le_add_right _ _)
  · rw [whole, behind, stream, List.take_append_of_le_length lane.within, List.drop_append_of_le_length lane.within]
    exact grown

theorem Lane.noneKept (lane : Lane body items crossed bufs taken kept todo) (read : bufs.dst = []) : kept = [] := by
  have count := frameCount (kept.map body)
  rw [← lane.filtered, read, List.length_map] at count
  exact List.length_eq_zero_iff.mp (Nat.le_zero.mp count)

theorem laneWhole (small : ∀ item ∈ items, Small (body item)) (lane : Lane body items crossed bufs taken kept todo)
    (whole : crossed = (frames (items.map body)).length) (read : bufs.dst = []) : items = taken ∧ bufs.src = [] := by
  have stream := lane.cut.stream
  rw [whole, List.drop_length, List.append_nil] at stream
  cases todo with
  | nil => exact ⟨by simpa [lane.noneKept read] using lane.order,stream⟩
  | cons item others =>
    have inside : item ∈ items := by
      rw [lane.order]
      exact List.mem_append_right _ List.mem_cons_self
    have first : bufs.src = Framing.frame lengthPrefix (body item) ++ Framing.frames lengthPrefix (others.map body) :=
      stream
    exact absurd (first ▸ lane.cut.short) (Framing.shortNoFrame lengthPrefix (smallBound (small item inside)))

theorem Lane.smallAll (lane : Lane body items crossed bufs taken kept todo) (small : ∀ item ∈ items, Small (body item)) :
    ∀ b ∈ (taken ++ kept ++ todo).map body, Small b := by
  intro b member
  rw [← lane.order] at member
  obtain ⟨item,present,rfl⟩ := List.mem_map.mp member
  exact small item present

theorem laneCrosses (small : ∀ item ∈ items, Small (body item)) (lane : Lane body items crossed bufs taken kept todo)
    (size : Nat) :
    let chunk := ((frames (items.map body)).drop crossed).take size
    ∃ fresh others tail, todo = fresh ++ others ∧ bufs.src ++ chunk = frames (fresh.map body) ++ tail ∧
      Framing.Short lengthPrefix tail ∧ crossed + chunk.length ≤ (frames (items.map body)).length ∧
      Framing.Cut lengthPrefix (items.map body) ((frames (items.map body)).take (crossed + chunk.length))
        ((frames (items.map body)).drop (crossed + chunk.length)) ((taken ++ (kept ++ fresh)).map body)
        (others.map body) tail := by
  have cut := lane.cut
  have within := lane.within
  generalize frames (items.map body) = stream at cut within ⊢
  intro chunk
  have length : (stream.drop crossed).take chunk.length = chunk := by
    rw [List.length_take, ← List.take_eq_take_min]
  have behind : stream.drop crossed = chunk ++ stream.drop (crossed + chunk.length) := by
    have split := List.take_append_drop chunk.length (stream.drop crossed)
    rw [length, List.drop_drop] at split
    exact split.symm
  have before : stream.take crossed ++ chunk = stream.take (crossed + chunk.length) := by
    rw [List.take_add, length]
  have inside : crossed + chunk.length ≤ stream.length := by
    have short : chunk.length = min size (stream.length - crossed) := by rw [List.length_take, List.length_drop]
    omega
  have smallTodo : ∀ b ∈ todo.map body, Small b := by
    intro b member
    refine lane.smallAll small b ?_
    rw [List.map_append]
    exact List.mem_append_right _ member
  have onward := cut.stream
  rw [behind, ← List.append_assoc] at onward
  obtain ⟨done,left,tail,second⟩ :=
    Framing.cutStream lengthPrefix (fun b member => smallBound (smallTodo b member)) onward
  obtain ⟨fresh,others,same,rfl,rfl⟩ := List.map_eq_append_iff.mp second.order
  rw [behind] at cut
  have after := Framing.cutOnward lengthPrefix cut second
  rw [before, ← List.map_append, List.append_assoc] at after
  exact ⟨fresh,others,tail,same,second.taken,second.short,inside,after⟩

section Arrival
variable {step : σ → Bytes → Run σ} {proc : XdrProc σ} (takes : TakesFrame step Small proc)

include takes in
theorem onDataKept {waiting done : List Bytes} (smallWaiting : ∀ b ∈ waiting, Small b) (smallDone : ∀ b ∈ done, Small b)
    {pending chunk rest : Bytes} (stream : pending ++ chunk = frames done ++ rest)
    (short : Framing.Short lengthPrefix rest) (calloc : Bool) (s : σ) :
    onData calloc proc ⟨⟨pending,frames waiting⟩,s⟩ chunk =
      if calloc = true ∧ done ≠ [] then ((waiting ++ done).foldlM step s).map (held rest)
      else .ok ⟨⟨rest,frames (waiting ++ done)⟩,s⟩ := by
  have joined : frames waiting ++ frames done = frames (waiting ++ done) :=
    (Framing.framesAppend lengthPrefix waiting done).symm
  have few : done.length < (pending ++ chunk).length + 1 := by
    have counted := frameCount done
    rw [stream, List.length_append]
    exact Nat.lt_succ_of_le (Nat.le_trans counted (Nat.le_add_right _ _))
  have drained := drainFrames done smallDone short (frames waiting) _ few false
  rw [← stream, joined] at drained
  simp only [onData, drained, bind, Except.bind, Bool.false_or]
  cases done with
  | nil => simp
  | cons b others =>
    have good : ∀ c ∈ waiting ++ b :: others, Small c := by
      intro c member
      rcases List.mem_append.mp member with old | new
      · exact smallWaiting c old
      · exact smallDone c new
    cases calloc with
    | false => simp [genericReadCb]
    | true =>
      have read := readCbFrames step (fun _ small => small) takes (waiting ++ b :: others) good s
      simp only [List.isEmpty_cons, Bool.not_false, if_true, read]
      cases (waiting ++ b :: others).foldlM step s with
      | error stop => simp [Except.map]
      | ok t => simp [Except.map, held]

include takes in
/- The next bytes come in: the frames they complete are handed on in order, or kept. -/
theorem laneArrives (small : ∀ item ∈ items, Small (body item)) (lane : Lane body items crossed bufs taken kept todo)
    (size : Nat) (calloc : Bool) (s : σ) :
    ∃ next now later left, onData calloc proc ⟨bufs,s⟩ (((frames (items.map body)).drop crossed).take size) =
        ((now.map body).foldlM step s).map (Link.mk next) ∧
      Lane body items (crossed + (((frames (items.map body)).drop crossed).take size).length) next (taken ++ now) later
        left ∧ (calloc = true → bufs.dst = [] → next.dst = []) := by
  obtain ⟨fresh,others,tail,same,joined,short,inside,after⟩ := laneCrosses small lane size
  generalize ((frames (items.map body)).drop crossed).take size = chunk at joined inside after ⊢
  have smallKept : ∀ b ∈ kept.map body, Small b := by
    intro b member
    refine lane.smallAll small b ?_
    rw [List.map_append, List.map_append]
    exact List.mem_append_left _ (List.mem_append_right _ member)
  have smallFresh : ∀ b ∈ fresh.map body, Small b := by
    intro b member
    refine lane.smallAll small b ?_
    rw [same, List.map_append, @List.map_append _ _ body fresh others]
    exact List.mem_append_right _ (List.mem_append_left _ member)
  have ran := onDataKept takes smallKept smallFresh joined short calloc s
  rw [← lane.filtered, ← List.map_append] at ran
  by_cases handed : calloc = true ∧ fresh.map body ≠ []
  · rw [if_pos handed] at ran
    refine ⟨⟨tail,[]⟩,kept ++ fresh,[],others,ran,⟨?_,inside,?_,rfl⟩,fun _ _ => rfl⟩
    · rw [lane.order, same]
      simp
    · rw [List.append_nil]
      exact after
  · rw [if_neg handed] at ran
    refine ⟨⟨tail,frames ((kept ++ fresh).map body)⟩,[],kept ++ fresh,others,ran,⟨?_,inside,?_,rfl⟩,?_⟩
    · rw [lane.order, same]
      simp
    · rw [List.append_nil]
      exact after
    · intro memory read
      have none : fresh.map body = [] := not_not.mp (fun some => handed ⟨memory,some⟩)
      show frames ((kept ++ fresh).map body) = []
      rw [List.map_append, none, lane.noneKept read]
      rfl

end Arrival
end VmpRl.Lanes
