import VmpRl.PbrpcService
import VmpRl.PbrpcClient
import VmpRl.PbrpcWire

/-! At which offsets of its buffer `generic_read_cb` calls `xdr->proc`: the loop with a list of its
calls beside it, against the frames one after the other. -/
namespace VmpRl.ReadVisits
open Octets CRuntime PbrpcMessages PbrpcXdr

variable {σ : Type}

/- `readLoop` with the offsets of its calls, the one that stops the process included. -/
def readVisits (proc : XdrProc σ) (buf : Bytes) : Nat → Int → Nat → σ → List Nat × Run σ
  | fuel, msg, read, s =>
    if read = 0 then ([],.ok s)
    else match fuel with
      | 0 => ([],.error .endless)
      | fuel+1 =>
        if msg < 0 then ([],.error .outOfBounds)
        else match proc (buf.drop msg.toNat) s with
          | .error stop => ([msg.toNat],.error stop)
          | .ok (bytesRead,s) =>
            let later := readVisits proc buf fuel (msg + bytesRead) (sizeSub read bytesRead) s
            (msg.toNat :: later.1,later.2)

theorem visitsLoop (proc : XdrProc σ) (buf : Bytes) (fuel : Nat) (msg : Int) (read : Nat) (s : σ) :
    (readVisits proc buf fuel msg read s).2 = readLoop proc buf fuel msg read s := by
  induction fuel generalizing msg read s with
  | zero =>
    unfold readVisits readLoop
    split
    · rfl
    · rfl
  | succ fuel ih =>
    unfold readVisits readLoop
    by_cases done : read = 0
    · rw [if_pos done, if_pos done]
    · rw [if_neg done, if_neg done]
      dsimp only
      by_cases before : msg < 0
      · rw [if_pos before, if_pos before]
      · rw [if_neg before, if_neg before]
        cases proc (buf.drop msg.toNat) s with
        | error stop => rfl
        | ok next => exact ih _ _ _

def readCbVisits (calloc : Bool) (proc : XdrProc σ) (input : Bytes) (s : σ) : List Nat × Run (Bytes × σ) :=
  if calloc then
    let visits := readVisits proc input input.length 0 input.length s
    (visits.1,visits.2.map (([] : Bytes),·))
  else ([],.ok (input,s))

theorem visitsReadCb (calloc : Bool) (proc : XdrProc σ) (input : Bytes) (s : σ) :
    (readCbVisits calloc proc input s).2 = genericReadCb calloc proc input s := by
  cases calloc with
  | false => rfl
  | true =>
    simp only [readCbVisits, genericReadCb, if_true, visitsLoop]
    cases readLoop proc input input.length 0 input.length s with
    | error stop => rfl
    | ok t => rfl

variable (step : σ → Bytes → Run σ)

def frameVisits : List Bytes → Nat → σ → List Nat × Run σ
  | [], _, s => ([],.ok s)
  | body :: rest, start, s => match step s body with
    | .error stop => ([start],.error stop)
    | .ok s =>
      let later := frameVisits rest (start + (frame body).length) s
      (start :: later.1,later.2)

def starts : List Bytes → Nat → List Nat
  | [], _ => []
  | body :: rest, start => start :: starts rest (start + (frame body).length)

theorem frameVisitsStarts {bodies : List Bytes} {start : Nat} {s t : σ}
    (ended : (frameVisits step bodies start s).2 = .ok t) :
    (frameVisits step bodies start s).1 = starts bodies start := by
  induction bodies generalizing start s with
  | nil => rfl
  | cons body rest ih =>
    unfold frameVisits at ended ⊢
    cases taken : step s body with
    | error stop =>
      rw [taken] at ended
      cases ended
    | ok u =>
      rw [taken] at ended
      simp only [starts]
      rw [ih ended]

theorem frameVisitsResult (bodies : List Bytes) (start : Nat) (s : σ) :
    (frameVisits step bodies start s).2 = bodies.foldlM step s := by
  induction bodies generalizing start s with
  | nil => rfl
  | cons body rest ih =>
    unfold frameVisits
    rw [List.foldlM_cons]
    cases step s body with
    | error stop => rfl
    | ok u => exact ih _ u

/- `generic_read_cb` calls `proc` once at the start of each frame, in order and nowhere else, and
stops with nothing left to read. -/
def VisitsFrames (calloc : Bool) (proc : XdrProc σ) (bodies : List Bytes) (s : σ) : Prop :=
  readCbVisits calloc proc (frames bodies) s =
    ((frameVisits step bodies 0 s).1,(frameVisits step bodies 0 s).2.map (([] : Bytes),·))

def SmallVisited (bodies : List Bytes) (s : σ) : Prop :=
  ∀ before body after, bodies = before ++ body :: after → Returns ((before ++ [body]).foldlM step s) → Small body

theorem visitedStopped {body : Bytes} {bodies : List Bytes} {s : σ} {stop : Stop}
    (taken : step s body = .error stop) : SmallVisited step (body :: bodies) s := by
  intro before b after same returns
  have stopped (rest : List Bytes) : (body :: rest).foldlM step s = .error stop := by
    rw [List.foldlM_cons, taken]
    rfl
  obtain ⟨t,ended⟩ := returns
  cases before with
  | nil =>
    obtain ⟨rfl,_⟩ := List.cons.inj same
    rw [List.nil_append, stopped] at ended
    cases ended
  | cons first others =>
    obtain ⟨rfl,_⟩ := List.cons.inj same
    rw [List.cons_append, stopped] at ended
    cases ended

theorem visitedCons {body : Bytes} {bodies : List Bytes} {s t : σ} (taken : step s body = .ok t) :
    SmallVisited step (body :: bodies) s ↔ Small body ∧ SmallVisited step bodies t := by
  have onward (rest : List Bytes) : (body :: rest).foldlM step s = rest.foldlM step t := by
    rw [List.foldlM_cons, taken]
    rfl
  constructor
  · intro all
    refine ⟨all [] body bodies rfl ⟨t,by rw [List.nil_append, onward]; rfl⟩,?_⟩
    intro before b after same returns
    apply all (body :: before) b after (by rw [same]; rfl)
    rw [List.cons_append, onward]
    exact returns
  · intro h before b after same returns
    obtain ⟨small,others⟩ := h
    cases before with
    | nil =>
      obtain ⟨rfl,_⟩ := List.cons.inj same
      exact small
    | cons first before =>
      obtain ⟨rfl,tail⟩ := List.cons.inj same
      rw [List.cons_append, onward] at returns
      exact others before b after tail returns

theorem readHead (proc : XdrProc σ) (buf : Bytes) (fuel : Nat) (msg : Int) {read : Nat} (more : read ≠ 0) (s : σ) :
    (∃ stop, readVisits proc buf fuel msg read s = ([],.error stop)) ∨
      (0 ≤ msg ∧ (readVisits proc buf fuel msg read s).1.head? = some msg.toNat) := by
  unfold readVisits
  rw [if_neg more]
  cases fuel with
  | zero => exact Or.inl ⟨.endless,rfl⟩
  | succ fuel =>
    dsimp only
    by_cases before : msg < 0
    · rw [if_pos before]
      exact Or.inl ⟨.outOfBounds,rfl⟩
    · rw [if_neg before]
      refine Or.inr ⟨Int.not_lt.mp before,?_⟩
      cases proc (buf.drop msg.toNat) s with
      | error stop => rfl
      | ok next => rfl

theorem frameHead (body : Bytes) (rest : List Bytes) (start : Nat) (s : σ) :
    (frameVisits step (body :: rest) start s).1.head? = some start := by
  unfold frameVisits
  cases step s body with
  | error stop => rfl
  | ok next => rfl

theorem shortStep (proc : XdrProc σ) (buf : Bytes) (fuel start : Nat) {size : Nat} {moved : Int}
    (short : moved < size) (bodies : List Bytes) (t : σ) :
    readVisits proc buf fuel (start + moved) (sizeSub (size + (frames bodies).length) moved) t ≠
      frameVisits step bodies (start + size) t := by
  have more : sizeSub (size + (frames bodies).length) moved ≠ 0 := by
    unfold sizeSub
    rw [if_pos (by omega)]
    omega
  intro same
  rcases readHead proc buf fuel (start + moved) more t with ⟨stop,stopped⟩ | ⟨inside,first⟩
  · rw [stopped] at same
    cases bodies with
    | nil => cases (Prod.mk.inj same).2
    | cons body rest =>
      have head := frameHead step body rest (start + size) t
      rw [← same] at head
      cases head
  · rw [same] at first
    cases bodies with
    | nil => cases first
    | cons body rest =>
      rw [frameHead] at first
      have offset := Option.some.inj first
      omega

/- The loop over the frames that are left. The induction is on them; those already read lie before
`msg`. -/
theorem loopVisits {proc : XdrProc σ} (takes : TakesFrame step Fits proc) (before : Bytes) (bodies : List Bytes)
    (fits : ∀ body ∈ bodies, Fits body) (fuel : Nat) (enough : bodies.length ≤ fuel) (s : σ) :
    readVisits proc (before ++ frames bodies) fuel before.length (frames bodies).length s =
        frameVisits step bodies before.length s ↔ SmallVisited step bodies s := by
  induction bodies generalizing before fuel s with
  | nil =>
    unfold readVisits
    simp [frames, frameVisits, SmallVisited]
  | cons body bodies ih =>
    have first := fits body List.mem_cons_self
    have left : (frames (body :: bodies)).length = (frame body).length + (frames bodies).length := by
      simp [frames, frame]
    have some : ¬ (frame body).length + (frames bodies).length = 0 := by
      rw [frameSize]
      omega
    have here : (before ++ frames (body :: bodies)).drop (before.length : Int).toNat =
        frame body ++ frames bodies := by
      simp [frames, frame]
    cases fuel with
    | zero => simp at enough
    | succ fuel =>
      have called := takes body (frames bodies) s first
      unfold readVisits frameVisits
      rw [left, if_neg some]
      dsimp only
      rw [if_neg (by omega), here, called]
      cases taken : step s body with
      | error stop =>
        exact ⟨fun _ => visitedStopped step taken,fun _ => rfl⟩
      | ok t =>
        rw [visitedCons step taken]
        have toHead (visits others : List Nat × Run σ) :
            ((before.length :: visits.1,visits.2) : List Nat × Run σ) = (before.length :: others.1,others.2) ↔
              visits = others := by
          simp [Prod.ext_iff]
        simp only [Except.map, Int.toNat_natCast]
        rw [toHead]
        by_cases small : Small body
        · have bound : 8 + body.length < 2 ^ 31 := small
          have int : toInt (frame body).length = (frame body).length := toIntSmall (by rw [frameSize]; exact bound)
          have rest : sizeSub ((frame body).length + (frames bodies).length) (toInt (frame body).length) =
              (frames bodies).length := by
            rw [int, sizeSubExact (by omega)]
            omega
          have offset : (before.length : Int) + toInt (frame body).length =
              ((before ++ frame body).length : Nat) := by
            rw [int, List.length_append]
            omega
          have same : before ++ frames (body :: bodies) = (before ++ frame body) ++ frames bodies := by
            simp [frames, frame]
          have next := ih (before ++ frame body) (fun b member => fits b (List.mem_cons_of_mem _ member)) fuel
            (by simpa using enough) t
          rw [rest, offset, same, ← List.length_append, next]
          exact ⟨fun others => ⟨small,others⟩,fun both => both.2⟩
        · have high : toInt (frame body).length < 2 ^ 31 := Int.bmod_lt (by decide)
          have large : ¬ 8 + body.length < 2 ^ 31 := small
          have short : toInt (frame body).length < (frame body).length := by
            rw [frameSize] at high ⊢
            omega
          exact ⟨fun same => absurd same (shortStep step proc _ fuel before.length short bodies t),
            fun both => absurd both.1 small⟩

theorem sameEnds {visits others : List Nat × Run σ}
    (same : ((visits.1,visits.2.map (([] : Bytes),·)) : List Nat × Run (Bytes × σ)) =
      (others.1,others.2.map (([] : Bytes),·))) : visits = others := by
  obtain ⟨calls,results⟩ := Prod.mk.inj same
  apply Prod.ext calls
  cases left : visits.2 with
  | error stop =>
    cases right : others.2 with
    | error other => simpa [left, right, Except.map] using results
    | ok u => simp [left, right, Except.map] at results
  | ok t =>
    cases right : others.2 with
    | error other => simp [left, right, Except.map] at results
    | ok u => simpa [left, right, Except.map] using results

theorem visitsExact {proc : XdrProc σ} (takes : TakesFrame step Fits proc) (calloc : Bool) (bodies : List Bytes)
    (fits : ∀ body ∈ bodies, Fits body) (s : σ) :
    VisitsFrames step calloc proc bodies s ↔ (calloc = true ∨ bodies = []) ∧ SmallVisited step bodies s := by
  unfold VisitsFrames readCbVisits
  cases calloc with
  | true =>
    have loop := loopVisits step takes [] bodies fits _ (frameCount bodies) s
    simp only [List.nil_append, List.length_nil] at loop
    rw [show ((0 : Nat) : Int) = 0 from rfl] at loop
    simp only [if_true, true_or, true_and]
    rw [← loop]
    constructor
    · intro same
      exact sameEnds same
    · intro same
      rw [same]
  | false =>
    simp only [Bool.false_eq_true, if_false, false_or]
    cases bodies with
    | nil => simp [frames, frameVisits, SmallVisited, Except.map]
    | cons body rest =>
      have head := frameHead step body rest 0 s
      constructor
      · intro same
        rw [← (Prod.mk.inj same).1] at head
        cases head
      · intro h
        cases h.1

variable {δ : Type} {α : δ → Type} {ρ κ : Type}

theorem bodiesFit {bodies : List Bytes} (inside : (frames bodies).length < 2 ^ 64) :
    ∀ body ∈ bodies, Fits body := by
  induction bodies with
  | nil => simp
  | cons first rest ih =>
    have size : (frames (first :: rest)).length = 8 + first.length + (frames rest).length := by
      simp [frames, Framing.frameLength, lengthPrefix]
    intro body member
    rcases List.mem_cons.mp member with rfl | among
    · show 8 + body.length < 2 ^ 64
      omega
    · exact ih (by omega) body among

theorem smallVisitedAll (returns : ∀ s body, Returns (step s body)) (bodies : List Bytes) (s : σ) :
    SmallVisited step bodies s ↔ ∀ body ∈ bodies, Small body := by
  induction bodies generalizing s with
  | nil => simp [SmallVisited]
  | cons body rest ih =>
    obtain ⟨t,taken⟩ := returns s body
    rw [visitedCons step taken, ih t]
    simp

/- On a buffer of complete frames, each end calls its `proc` once at the start of every frame, in
order, and stops with nothing left, exactly if it gets the memory for its copy and every frame
whose call returns has less than 2^31 bytes. -/
theorem framesVisited (pb : Protobuf) (P : PbrpcService.Platform δ α σ)
    (head : List (PbrpcService.Callout δ α)) (calloc : Bool) (bodies : List Bytes)
    (inside : (frames bodies).length < 2 ^ 64) (c : PbrpcService.Conn σ) (clnt : PbrpcClient.Clnt ρ κ) :
    (VisitsFrames (fun c body => PbrpcService.serveRequest pb P head (pb.request.unpack body) c) calloc
        (PbrpcService.processRequest pb P head) bodies c ↔
      (calloc = true ∨ bodies = []) ∧
        SmallVisited (fun c body => PbrpcService.serveRequest pb P head (pb.request.unpack body) c) bodies c) ∧
    (VisitsFrames (fun clnt body => .ok (PbrpcClient.handleResponse (pb.response.unpack body) clnt)) calloc
        (PbrpcClient.processResponse pb) bodies clnt ↔
      (calloc = true ∨ bodies = []) ∧ ∀ body ∈ bodies, Small body) := by
  have fits := bodiesFit inside
  refine ⟨visitsExact _ (PbrpcService.processTakes pb P head) calloc bodies fits c,?_⟩
  rw [visitsExact _ (PbrpcClient.responseTakes pb) calloc bodies fits clnt,
    smallVisitedAll _ (fun _ _ => ⟨_,rfl⟩)]

def unheard : PbrpcService.Platform Empty (fun _ => Unit) Unit := ⟨fun d => d.elim,fun w => (true,w)⟩

theorem twoResponses :
    VisitsFrames (fun (clnt : PbrpcClient.Clnt Unit Unit) body =>
        .ok (PbrpcClient.handleResponse (PbrpcWire.wire.response.unpack body) clnt)) true
      (PbrpcClient.processResponse PbrpcWire.wire) [[],[8]] .new := by
  have small : ∀ body ∈ ([[],[8]] : List Bytes), Small body := by
    intro body member
    simp only [List.mem_cons, List.not_mem_nil, or_false] at member
    rcases member with rfl | rfl
    · show 8 + 0 < 2 ^ 31
      decide
    · show 8 + 1 < 2 ^ 31
      decide
  exact (framesVisited PbrpcWire.wire unheard [] true [[],[8]] (by decide) ⟨(),[],[]⟩ .new).2.mpr ⟨Or.inl rfl,small⟩

theorem backStep {proc : XdrProc σ} {buf : Bytes} {s t : σ} {moved : Int} (called : proc buf s = .ok (moved,t))
    (back : moved < 0) (fuel : Nat) {read : Nat} (more : read ≠ 0) :
    readVisits proc buf (fuel + 2) 0 read s = ([0],.error .outOfBounds) := by
  have left : sizeSub read moved ≠ 0 := by
    unfold sizeSub
    rw [if_pos (by omega)]
    omega
  unfold readVisits
  rw [if_neg more]
  simp only [Int.toNat_zero, List.drop_zero, called, Int.lt_irrefl, if_false]
  unfold readVisits
  rw [if_neg left]
  dsimp only
  rw [if_pos (by omega)]

theorem vastFrame (pb : Protobuf) {body : Bytes} (size : 8 + body.length = 2 ^ 31) (clnt : PbrpcClient.Clnt ρ κ) :
    readCbVisits true (PbrpcClient.processResponse pb) (frames [body]) clnt = ([0],.error .outOfBounds) := by
  have whole : frames [body] = frame body ++ [] := by simp [frames, frame]
  have fits : Fits body := by
    show 8 + body.length < 2 ^ 64
    omega
  have negative : toInt (frame body).length < 0 := by
    have same : (((frame body).length : Nat) : Int) = 2147483648 := by
      rw [frameSize]
      omega
    rw [same]
    decide
  have called := PbrpcClient.responseTakes pb body [] clnt fits
  obtain ⟨fuel,more⟩ : ∃ fuel, (frame body ++ []).length = fuel + 2 :=
    ⟨6 + body.length,by rw [List.append_nil, frameSize]; omega⟩
  have visits := backStep called negative fuel (Nat.succ_ne_zero (fuel + 1))
  simp only [readCbVisits, if_true, whole, more, visits]
  rfl

theorem vastUnvisited :
    ∃ body : Bytes, 8 + body.length = 2 ^ 31 ∧
      readCbVisits true (PbrpcClient.processResponse PbrpcWire.wire) (frames [body])
        (PbrpcClient.Clnt.new (ρ := Unit) (κ := Unit)) = ([0],.error .outOfBounds) ∧
      ¬ VisitsFrames (fun (clnt : PbrpcClient.Clnt Unit Unit) body =>
          .ok (PbrpcClient.handleResponse (PbrpcWire.wire.response.unpack body) clnt)) true
        (PbrpcClient.processResponse PbrpcWire.wire) [body] .new := by
  have size : 8 + (List.replicate (2 ^ 31 - 8) (0 : UInt8)).length = 2 ^ 31 := by
    rw [List.length_replicate, Nat.add_sub_of_le (by decide)]
  generalize List.replicate (2 ^ 31 - 8) (0 : UInt8) = body at size
  have ended := vastFrame PbrpcWire.wire size (PbrpcClient.Clnt.new (ρ := Unit) (κ := Unit))
  refine ⟨body,size,ended,?_⟩
  intro same
  have result := (Prod.mk.inj (ended.symm.trans same)).2
  rw [frameVisitsResult] at result
  cases result

end VmpRl.ReadVisits
