import VmpRl.Base.Octets

/-! The protobuf wire format: base-128 integers, keyed fields of three wire types, and
messages as sequences of fields. A schema turns a message into fields and back. -/
namespace VmpRl.Wire
open Octets

def putVarint : Nat → Nat → Bytes
  | 0, n => [UInt8.ofNat n]
  | fuel+1, n =>
    if n < 128 then [UInt8.ofNat n]
    else UInt8.ofNat (128 + n % 128) :: putVarint fuel (n / 128)

/- Every division by 128 shrinks `n`, so `n` is fuel enough. -/
def varint (n : Nat) : Bytes := putVarint n n

def readVarint : Bytes → Option (Nat × Bytes)
  | [] => none
  | b :: rest =>
    if b.toNat < 128 then some (b.toNat,rest)
    else (readVarint rest).map (fun high => (b.toNat - 128 + 128 * high.1,high.2))

theorem readPutVarint (fuel n : Nat) (enough : n ≤ fuel) (rest : Bytes) :
    readVarint (putVarint fuel n ++ rest) = some (n,rest) := by
  induction fuel generalizing n with
  | zero =>
    have zero : n = 0 := by omega
    subst n
    rfl
  | succ fuel ih =>
    unfold putVarint
    split
    · rename_i small
      have byte : (UInt8.ofNat n).toNat = n := by
        rw [UInt8.toNat_ofNat']
        omega
      simp only [List.cons_append, List.nil_append, readVarint, byte, if_pos small]
    · rename_i large
      have byte : (UInt8.ofNat (128 + n % 128)).toNat = 128 + n % 128 := by
        rw [UInt8.toNat_ofNat']
        omega
      have high := ih (n / 128) (by omega)
      have marked : ¬ 128 + n % 128 < 128 := by omega
      simp only [List.cons_append, readVarint, byte, if_neg marked, high, Option.map_some,
        Option.some.injEq, Prod.mk.injEq, and_true]
      omega

theorem readVarintWritten (n : Nat) (rest : Bytes) :
    readVarint (varint n ++ rest) = some (n,rest) :=
  readPutVarint n n (Nat.le_refl n) rest

inductive Value where
  | varint (n : Nat)
  | fixed64 (n : Nat)
  | bytes (raw : Bytes)
  deriving DecidableEq, Repr

structure Field where
  number : Nat
  value : Value
  deriving DecidableEq, Repr

def Value.wireType : Value → Nat
  | .varint _ => 0
  | .fixed64 _ => 1
  | .bytes _ => 2

def Value.put : Value → Bytes
  | .varint n => Wire.varint n
  | .fixed64 n => (be 8 n).reverse
  | .bytes raw => Wire.varint raw.length ++ raw

def Value.Fits : Value → Prop
  | .fixed64 n => n < 2 ^ 64
  | _ => True

def Value.read (wireType : Nat) (raw : Bytes) : Option (Value × Bytes) :=
  match wireType with
  | 0 => (readVarint raw).map (fun r => (.varint r.1,r.2))
  | 1 => if 8 ≤ raw.length then some (.fixed64 (readBE (raw.take 8).reverse),raw.drop 8) else none
  | 2 => do
    let (len, rest) ← readVarint raw
    if len ≤ rest.length then some (.bytes (rest.take len),rest.drop len) else none
  | _ => none

theorem readValue (v : Value) (fits : v.Fits) (rest : Bytes) :
    Value.read v.wireType (v.put ++ rest) = some (v,rest) := by
  cases v with
  | varint n => simp [Value.read, Value.wireType, Value.put, readVarintWritten]
  | fixed64 n =>
    have size : ((be 8 n).reverse).length = 8 := by simp
    have bound : n < 256 ^ 8 := fits
    simp [Value.read, Value.wireType, Value.put, List.take_left' size, List.drop_left' size,
      readBEWritten 8 n bound]
  | bytes raw => simp [Value.read, Value.wireType, Value.put, readVarintWritten]

def Field.put (f : Field) : Bytes := varint (f.number * 8 + f.value.wireType) ++ f.value.put

def Field.read (raw : Bytes) : Option (Field × Bytes) := do
  let (key, rest) ← readVarint raw
  let (value, rest) ← Value.read (key % 8) rest
  some (⟨key / 8,value⟩,rest)

theorem wireTypeSmall (v : Value) : v.wireType < 8 := by cases v <;> simp [Value.wireType]

theorem readField (f : Field) (fits : f.value.Fits) (rest : Bytes) :
    Field.read (f.put ++ rest) = some (f,rest) := by
  have small := wireTypeSmall f.value
  have low : (f.number * 8 + f.value.wireType) % 8 = f.value.wireType := by omega
  have high : (f.number * 8 + f.value.wireType) / 8 = f.number := by omega
  simp [Field.read, Field.put, readVarintWritten, low, high, readValue f.value fits]

def putFields (fields : List Field) : Bytes := fields.flatMap Field.put

def readFields : Nat → Bytes → Option (List Field)
  | _, [] => some []
  | 0, _ :: _ => none
  | fuel+1, raw => do
    let (f, rest) ← Field.read raw
    let fields ← readFields fuel rest
    some (f :: fields)

theorem varintNonempty (fuel n : Nat) : 0 < (putVarint fuel n).length := by
  cases fuel with
  | zero => simp [putVarint]
  | succ fuel =>
    unfold putVarint
    split <;> simp

theorem fieldNonempty (f : Field) : 0 < f.put.length := by
  have key := varintNonempty (f.number * 8 + f.value.wireType) (f.number * 8 + f.value.wireType)
  simp only [Field.put, varint, List.length_append]
  omega

theorem readFieldsWritten (fields : List Field) (fits : ∀ f ∈ fields, f.value.Fits) (fuel : Nat)
    (enough : fields.length ≤ fuel) : readFields fuel (putFields fields) = some fields := by
  induction fields generalizing fuel with
  | nil =>
    unfold readFields
    rfl
  | cons f rest ih =>
    cases fuel with
    | zero => simp at enough
    | succ fuel =>
      have later := ih (fun g member => fits g (List.mem_cons_of_mem _ member)) fuel
        (by simpa using enough)
      have first := readField f (fits f List.mem_cons_self) (putFields rest)
      have raw : putFields (f :: rest) = f.put ++ putFields rest := rfl
      rw [raw]
      cases hp : f.put ++ putFields rest with
      | nil =>
        have size := fieldNonempty f
        have none := congrArg List.length hp
        rw [List.length_append, List.length_nil] at none
        omega
      | cons b tail =>
        rw [hp] at first
        simp only [readFields, first, later, bind, Option.bind]

theorem fieldCount (fields : List Field) : fields.length ≤ (putFields fields).length := by
  induction fields with
  | nil => simp
  | cons f rest ih =>
    have size := fieldNonempty f
    simp only [putFields, List.flatMap_cons, List.length_cons, List.length_append] at ih ⊢
    omega

structure Schema (M : Type) where
  toFields : M → List Field
  ofFields : List Field → Option M
  fits : ∀ m, ∀ f ∈ toFields m, f.value.Fits
  inverse : ∀ m, ofFields (toFields m) = some m

variable {M : Type} (s : Schema M)

def Schema.pack (m : M) : Bytes := putFields (s.toFields m)

def Schema.unpack (raw : Bytes) : Option M := (readFields raw.length raw).bind s.ofFields

theorem Schema.unpackPack (m : M) : s.unpack (s.pack m) = some m := by
  have read := readFieldsWritten (s.toFields m) (s.fits m) _ (fieldCount _)
  simp only [Schema.unpack, Schema.pack, read, Option.bind_some]
  exact s.inverse m

def last (number : Nat) (fields : List Field) : Option Value :=
  (fields.reverse.find? (fun f => f.number == number)).map Field.value

def uint (width : Nat) : Value → Option (BitVec width)
  | .varint n => some (BitVec.ofNat width n)
  | _ => none

def double : Value → Option (BitVec 64)
  | .fixed64 n => some (BitVec.ofNat 64 n)
  | _ => none

def raw : Value → Option Bytes
  | .bytes b => some b
  | _ => none

def string (v : Value) : Option CString := (raw v).map cut

/- A required field must be there; an optional one may be absent but not of another type. -/
def required {α : Type} (number : Nat) (kind : Value → Option α) (fields : List Field) : Option α :=
  (last number fields).bind kind

def mayHave {α : Type} (number : Nat) (kind : Value → Option α) (fields : List Field) :
    Option (Option α) :=
  match last number fields with
  | none => some none
  | some v => (kind v).map some

def putUint {width : Nat} (number : Nat) (n : BitVec width) : Field := ⟨number,.varint n.toNat⟩
def putDouble (number : Nat) (n : BitVec 64) : Field := ⟨number,.fixed64 n.toNat⟩
def putRaw (number : Nat) (b : Bytes) : Field := ⟨number,.bytes b⟩
def putString (number : Nat) (s : CString) : Field := ⟨number,.bytes s.bytes⟩

@[simp] theorem uintPut {width : Nat} (number : Nat) (n : BitVec width) :
    uint width (putUint number n).value = some n := by simp [uint, putUint]
@[simp] theorem doublePut (number : Nat) (n : BitVec 64) :
    double (putDouble number n).value = some n := by simp [double, putDouble]
@[simp] theorem rawPut (number : Nat) (b : Bytes) : raw (putRaw number b).value = some b := rfl
@[simp] theorem stringPut (number : Nat) (s : CString) :
    string (putString number s).value = some s := by simp [string, raw, putString]
@[simp] theorem uintNumber {width : Nat} (number : Nat) (n : BitVec width) :
    (putUint number n).number = number := rfl
@[simp] theorem doubleNumber (number : Nat) (n : BitVec 64) : (putDouble number n).number = number := rfl
@[simp] theorem rawNumber (number : Nat) (b : Bytes) : (putRaw number b).number = number := rfl
@[simp] theorem stringNumber (number : Nat) (s : CString) : (putString number s).number = number := rfl
@[simp] theorem uintFits {width : Nat} (number : Nat) (n : BitVec width) :
    (putUint number n).value.Fits := trivial
@[simp] theorem doubleFits (number : Nat) (n : BitVec 64) : (putDouble number n).value.Fits := n.isLt
@[simp] theorem rawFits (number : Nat) (b : Bytes) : (putRaw number b).value.Fits := trivial
@[simp] theorem stringFits (number : Nat) (s : CString) : (putString number s).value.Fits := trivial

end VmpRl.Wire
