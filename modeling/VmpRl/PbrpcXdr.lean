import VmpRl.Base.Framing
import VmpRl.CRuntime
import VmpRl.PbrpcMessages

/-! The byte path both ends of a connection share: the input filter, libevent's loop
around it, the read callback and the reading of one message. -/
namespace VmpRl.PbrpcXdr
open Octets CRuntime PbrpcMessages

inductive FilterResult where
  | ok
  | needMore
  | error
  deriving DecidableEq, Repr

structure Evbuffers where
  src : Bytes
  dst : Bytes
  deriving DecidableEq, Repr

def evbufferPullup (src : Bytes) (size : Nat) : Option Bytes :=
  if size ≤ src.length then some (src.take size) else none

def evbufferRemoveBuffer (b : Evbuffers) (datlen : Nat) : Int × Evbuffers :=
  let n := min datlen b.src.length
  (toInt n, ⟨b.src.drop n, b.dst ++ b.src.take n⟩)

def filterPbrpcMessages (b : Evbuffers) : FilterResult × Evbuffers :=
  match evbufferPullup b.src 8 with
  | none => (.error, b)
  | some lenbuf =>
    let messageLen := readBE lenbuf
    let expectedLen := (8 + messageLen) % 2 ^ 64
    if b.src.length < expectedLen then (.needMore, b)
    else
      let moved := evbufferRemoveBuffer b expectedLen
      if toSize moved.1 ≠ expectedLen then (.error, moved.2) else (.ok, moved.2)

/- libevent calls the filter again while it returns BEV_OK and bytes are left, and does
nothing with any other result. The flag says whether anything was moved. -/
def drain : Nat → Evbuffers → Bool → Run (Bool × Evbuffers)
  | 0, _, _ => .error .endless
  | fuel+1, b, processed =>
    match filterPbrpcMessages b with
    | (.ok, moved) => if moved.src = [] then .ok (true, moved) else drain fuel moved true
    | (_, kept) => .ok (processed, kept)

abbrev XdrProc (σ : Type) := Bytes → σ → Run (Int × σ)

variable {σ : Type}

/- `for (msg = buf; read > 0; read -= bytes_read, msg += bytes_read)`. The int that `proc`
returns becomes a uint64_t, so a negative one moves `msg` back and lets `read` grow. -/
def readLoop (proc : XdrProc σ) (buf : Bytes) : Nat → Int → Nat → σ → Run σ
  | fuel, msg, read, s =>
    if read = 0 then .ok s
    else match fuel with
      | 0 => .error .endless
      | fuel+1 =>
        if msg < 0 then .error .outOfBounds
        else do
          let (bytesRead, s) ← proc (buf.drop msg.toNat) s
          readLoop proc buf fuel (msg + bytesRead) (sizeSub read bytesRead) s

/- The fuel is the number of offsets in the buffer: a loop that takes more steps visits an
offset twice. Without memory the input is left where it is. -/
def genericReadCb (calloc : Bool) (proc : XdrProc σ) (input : Bytes) (s : σ) : Run (Bytes × σ) :=
  if calloc then do
    let s ← readLoop proc input input.length 0 input.length s
    .ok ([], s)
  else .ok (input, s)

structure Link (σ : Type) where
  bufs : Evbuffers
  state : σ

def onData (calloc : Bool) (proc : XdrProc σ) (l : Link σ) (chunk : Bytes) : Run (Link σ) := do
  let arrived : Evbuffers := {l.bufs with src := l.bufs.src ++ chunk}
  let (processed, bufs) ← drain (arrived.src.length + 1) arrived false
  if processed then do
    let (input, s) ← genericReadCb calloc proc bufs.dst l.state
    .ok ⟨{bufs with dst := input},s⟩
  else .ok ⟨bufs,l.state⟩

def readMessage {M : Type} (codec : Codec M) (msg : Bytes) : Run (Option M × Nat) :=
  if msg.length < 8 then .error .outOfBounds
  else
    let protoLen := readBE (msg.take 8)
    if (msg.drop 8).length < protoLen then .error .outOfBounds
    else .ok (codec.unpack ((msg.drop 8).take protoLen), (protoLen + 8) % 2 ^ 64)

def packedBuffer {M : Type} (codec : Codec M) (m : M) : Bytes :=
  be 8 (codec.getPackedSize m) ++ codec.pack m

structure Write where
  data : Option Bytes
  size : Nat
  deriving DecidableEq, Repr

/- What the call appends to the output. A size past the buffer is a negative int turned
into a size_t, which libevent refuses. -/
def Write.bytes (w : Write) : Bytes := match w.data with
  | none => []
  | some data => if w.size ≤ data.length then data.take w.size else []

theorem bytesWhole (data : Bytes) {size : Nat} (same : size = data.length) :
    Write.bytes ⟨some data,size⟩ = data := by
  subst same
  simp [Write.bytes]

def writtenBytes (writes : List Write) : Bytes := (writes.map Write.bytes).flatten

def lengthPrefix : Framing.Prefix where
  width := 8
  bound := 2 ^ 64 - 8
  write := be 8
  read := readBE
  positive := by decide
  writeLength := lengthBE 8
  readWrite n fits := readBEWritten 8 n (by omega)

abbrev frame := Framing.frame lengthPrefix
abbrev frames := Framing.frames lengthPrefix

def Small (body : Bytes) : Prop := 8 + body.length < 2 ^ 31

theorem smallBound {body : Bytes} (small : Small body) : body.length < lengthPrefix.bound := by
  have h : 8 + body.length < 2 ^ 31 := small
  show body.length < 2 ^ 64 - 8
  omega

theorem frameSize (body : Bytes) : (frame body).length = 8 + body.length :=
  Framing.frameLength lengthPrefix body

theorem headerOfFrame (body rest : Bytes) : (frame body ++ rest).take 8 = be 8 body.length :=
  Framing.takePrefix lengthPrefix body rest

theorem bodyOfFrame (body rest : Bytes) : (frame body ++ rest).drop 8 = body ++ rest :=
  Framing.dropPrefix lengthPrefix body rest

theorem packedBufferFrame {M : Type} {codec : Codec M} (law : codec.Lawful) (m : M) :
    packedBuffer codec m = frame (codec.pack m) := by
  rw [packedBuffer, law.packedSize]
  rfl

def Fits (body : Bytes) : Prop := 8 + body.length < 2 ^ 64

theorem smallFits {body : Bytes} (small : Small body) : Fits body := by
  have bound : 8 + body.length < 2 ^ 31 := small
  show 8 + body.length < 2 ^ 64
  omega

theorem toIntFrame {body : Bytes} (fits : Fits body) :
    toInt ((body.length + 8) % 2 ^ 64 : Nat) = toInt (frame body).length := by
  have bound : 8 + body.length < 2 ^ 64 := fits
  rw [Nat.mod_eq_of_lt (by omega), frameSize, Nat.add_comm]

theorem readFrame {M : Type} (codec : Codec M) {body : Bytes} (fits : body.length < 2 ^ 64)
    (rest : Bytes) :
    readMessage codec (frame body ++ rest) =
      .ok (codec.unpack body, (body.length + 8) % 2 ^ 64) := by
  have long : ¬ (frame body ++ rest).length < 8 := by
    rw [List.length_append, frameSize]
    omega
  have inside : ¬ (body ++ rest).length < body.length := by simp
  simp only [readMessage, if_neg long, headerOfFrame, bodyOfFrame]
  rw [readBEWritten 8 _ (by simpa using fits), if_neg inside, List.take_left]

theorem filterFrame {body : Bytes} (small : Small body) (rest dst : Bytes) :
    filterPbrpcMessages ⟨frame body ++ rest,dst⟩ = (.ok, ⟨rest,dst ++ frame body⟩) := by
  have bound : 8 + body.length < 2 ^ 31 := small
  have size : (frame body ++ rest).length = 8 + body.length + rest.length := by
    rw [List.length_append, frameSize]
  have pulled : evbufferPullup (frame body ++ rest) 8 = some (be 8 body.length) := by
    rw [evbufferPullup, if_pos (by omega), headerOfFrame]
  have expected : (8 + body.length) % 2 ^ 64 = (frame body).length := by
    rw [frameSize]
    omega
  simp only [filterPbrpcMessages, pulled]
  rw [readBEWritten 8 _ (by simp; omega), expected]
  have enough : ¬ (frame body ++ rest).length < (frame body).length := by simp
  have whole : min (frame body).length (frame body ++ rest).length = (frame body).length := by simp
  have counted : toSize (toInt (frame body).length) = (frame body).length :=
    toSizeToInt (by rw [frameSize]; exact bound)
  simp only [if_neg enough, evbufferRemoveBuffer, whole, counted, ne_eq, not_true_eq_false, if_false,
    List.drop_left, List.take_left]

theorem filterShort {src : Bytes} (short : Framing.Short lengthPrefix src) (dst : Bytes) :
    ∃ r, r ≠ .ok ∧ filterPbrpcMessages ⟨src,dst⟩ = (r, ⟨src,dst⟩) := by
  unfold filterPbrpcMessages evbufferPullup
  by_cases long : 8 ≤ src.length
  · have needed : Framing.need lengthPrefix src = some (8 + readBE (src.take 8)) := if_pos long
    have lacks := short _ needed
    have fits : 8 + readBE (src.take 8) < 2 ^ 64 := lacks.2
    simp only [if_pos long]
    rw [Nat.mod_eq_of_lt fits, if_pos lacks.1]
    exact ⟨.needMore,by decide,rfl⟩
  · simp only [if_neg long]
    exact ⟨.error,by decide,rfl⟩

theorem drainFrames (bodies : List Bytes) (small : ∀ b ∈ bodies, Small b) {rest : Bytes}
    (short : Framing.Short lengthPrefix rest) (dst : Bytes) (fuel : Nat)
    (enough : bodies.length < fuel) (processed : Bool) :
    drain fuel ⟨frames bodies ++ rest,dst⟩ processed =
      .ok (processed || !bodies.isEmpty, ⟨rest,dst ++ frames bodies⟩) := by
  induction bodies generalizing dst fuel processed with
  | nil =>
    obtain ⟨r,other,stays⟩ := filterShort short dst
    cases fuel with
    | zero => omega
    | succ fuel =>
      simp only [frames, Framing.framesNil, List.nil_append, drain, stays]
      cases r with
      | ok => contradiction
      | needMore => simp
      | error => simp
  | cons body bodies ih =>
    have first : Small body := small body List.mem_cons_self
    cases fuel with
    | zero => omega
    | succ fuel =>
      have split : frames (body :: bodies) ++ rest = frame body ++ (frames bodies ++ rest) := by
        simp [frames, frame]
      rw [split, drain, filterFrame first]
      dsimp only
      by_cases last : frames bodies ++ rest = []
      · obtain ⟨none,empty⟩ := List.append_eq_nil_iff.mp last
        rw [if_pos last, empty]
        simp [frames, frame] at none ⊢
        exact none
      · have later := ih (fun b member => small b (List.mem_cons_of_mem _ member))
          (dst ++ frame body) fuel (by simpa using enough) true
        rw [if_neg last, later]
        simp [frames, frame]

variable (step : σ → Bytes → Run σ)

/- A callback that takes one frame: whatever follows in the buffer, it does `step` on the
body and returns the size of the frame as an int. -/
def TakesFrame (ok : Bytes → Prop) (proc : XdrProc σ) : Prop :=
  ∀ body rest s, ok body →
    proc (frame body ++ rest) s = (step s body).map (fun t => (toInt (frame body).length, t))

theorem TakesFrame.mono {step : σ → Bytes → Run σ} {ok fewer : Bytes → Prop} {proc : XdrProc σ}
    (takes : TakesFrame step ok proc) (inside : ∀ body, fewer body → ok body) : TakesFrame step fewer proc :=
  fun body rest s good => takes body rest s (inside body good)

/- The read loop calls `proc` once at the start of each frame and stops with `read = 0`. The
induction is on the frames still unread; those already read lie before `msg`. -/
theorem readLoopFrames {ok : Bytes → Prop} {proc : XdrProc σ} (small : ∀ b, ok b → Small b)
    (takes : TakesFrame step ok proc) (before : Bytes) (bodies : List Bytes)
    (good : ∀ b ∈ bodies, ok b) (fuel : Nat) (enough : bodies.length ≤ fuel) (s : σ) :
    readLoop proc (before ++ frames bodies) fuel before.length (frames bodies).length s =
      bodies.foldlM step s := by
  induction bodies generalizing before fuel s with
  | nil =>
    unfold readLoop
    simp [frames]
    rfl
  | cons body bodies ih =>
    have first := good body List.mem_cons_self
    have int : toInt (frame body).length = (frame body).length :=
      toIntSmall (by rw [frameSize]; exact small body first)
    have left : (frames (body :: bodies)).length = (frame body).length + (frames bodies).length := by
      simp [frames, frame]
    have some : ¬ (frame body).length + (frames bodies).length = 0 := by
      rw [frameSize]
      omega
    cases fuel with
    | zero => simp at enough
    | succ fuel =>
      have here : (before ++ frames (body :: bodies)).drop (before.length : Int).toNat =
          frame body ++ frames bodies := by
        simp [frames, frame]
      unfold readLoop
      rw [left, if_neg some]
      dsimp only
      rw [if_neg (by omega), here, takes body _ s first, List.foldlM_cons]
      cases step s body with
      | error e => rfl
      | ok t =>
        have moved := ih (before ++ frame body) (fun b member => good b (List.mem_cons_of_mem _ member))
          fuel (by simpa using enough) t
        have offset : (before.length : Int) + toInt (frame body).length =
            ((before ++ frame body).length : Nat) := by
          rw [int, List.length_append]
          omega
        have rest : sizeSub ((frame body).length + (frames bodies).length)
            (toInt (frame body).length) = (frames bodies).length := by
          rw [int, sizeSubExact (by omega)]
          omega
        have same : before ++ frames (body :: bodies) = (before ++ frame body) ++ frames bodies := by
          simp [frames, frame]
        show readLoop proc _ fuel _ _ t = _
        rw [offset, rest, same]
        exact moved

theorem frameCount (bodies : List Bytes) : bodies.length ≤ (frames bodies).length := by
  induction bodies with
  | nil => simp
  | cons body bodies ih =>
    simp only [frames, Framing.framesCons, List.length_cons, List.length_append] at ih ⊢
    have := Framing.framePositive lengthPrefix body
    omega

theorem readCbFrames {ok : Bytes → Prop} {proc : XdrProc σ} (small : ∀ b, ok b → Small b)
    (takes : TakesFrame step ok proc) (bodies : List Bytes) (good : ∀ b ∈ bodies, ok b) (s : σ) :
    genericReadCb true proc (frames bodies) s = (bodies.foldlM step s).map (([] : Bytes), ·) := by
  have loop := readLoopFrames step small takes [] bodies good _ (frameCount bodies) s
  simp only [List.nil_append, List.length_nil] at loop
  simp only [genericReadCb, if_true]
  rw [show (0 : Int) = ((0 : Nat) : Int) from rfl, loop]
  cases bodies.foldlM step s with
  | error e => rfl
  | ok t => rfl

def held (pending : Bytes) (s : σ) : Link σ := ⟨⟨pending,[]⟩,s⟩

theorem linkFrameByFrame {ok : Bytes → Prop} {proc : XdrProc σ} (small : ∀ b, ok b → Small b)
    (takes : TakesFrame step ok proc) :
    Framing.FrameByFrame lengthPrefix ok step held (onData true proc) := by
  intro pending chunk rest s done good stream short
  have few : done.length < (pending ++ chunk).length + 1 := by
    have counted := frameCount done
    rw [stream, List.length_append]
    exact Nat.lt_succ_of_le (Nat.le_trans counted (Nat.le_add_right _ _))
  have drained := drainFrames done (fun b member => small b (good b member)) short [] _ few false
  simp only [onData, held]
  rw [stream] at drained ⊢
  simp only [frames] at drained
  rw [drained]
  cases done with
  | nil => rfl
  | cons body done =>
    have read := readCbFrames step small takes (body :: done) good s
    simp only [bind, Except.bind, Bool.false_or, List.isEmpty_cons, Bool.not_false, if_true,
      List.nil_append]
    simp only [frames] at read
    rw [read]
    cases (body :: done).foldlM step s with
    | error e => rfl
    | ok t => rfl

theorem linkDelivers {ok : Bytes → Prop} {proc : XdrProc σ} (small : ∀ b, ok b → Small b)
    (takes : TakesFrame step ok proc) (bodies : List Bytes) (good : ∀ b ∈ bodies, ok b)
    (chunks : List Bytes) (stream : chunks.flatten = frames bodies) (s : σ) :
    chunks.foldlM (onData true proc) (held [] s) = (bodies.foldlM step s).map (held []) :=
  Framing.chunkedDelivery lengthPrefix ok step held (fun b good => smallBound (small b good))
    (linkFrameByFrame step small takes) chunks bodies good [] s (Framing.shortNil _) stream

end VmpRl.PbrpcXdr
