/-
  Message passing — sessions on buffers.

  A session is what a program holds: a list of buffers.  A call makes a buffer from plain data,
  derives a new one from held ones, or changes a held one in place; new buffers are held after
  the others.  Calls are carried out on buffers made of whole rows (`Carrier.rowwise`) or on raw
  buffers (`Carrier.positional`).
-/
import MessagePassing.RawBuffer

namespace MessagePassing

/-! ## Calls -/

/-- Plain data of a buffer. -/
inductive BufferSource where
  | zeros (rows cols : Nat)
  | tryZeros (rows cols : Nat)
  | flat (data : Array Scalar) (rows cols : Nat)
  /-- Rows, as wide as the first. -/
  | rows (rows : List (Array Scalar))
  | rowsOfWidth (rows : List (Array Scalar)) (cols : Nat)

/-- What can be made of one buffer. -/
inductive BufferDerivation where
  | columns (start stop : Nat)
  | mapRows (cols : Nat) (f : RowWriter)
  | aggregate (r : Reducer) (index : Array Nat) (segments : Nat)
  | gather (indices : Array Nat)
  | broadcast (rows : Nat)

/-- What can be done to a buffer in place. -/
inductive BufferChange where
  | resize (rows cols : Nat)
  | setRow (i : Nat) (values : Array Scalar)

/-- A call; held buffers are told by their positions. -/
inductive BufferCall where
  | make (source : BufferSource)
  | derive (derivation : BufferDerivation) (operand : Nat)
  | joinColumns (operands : List Nat)
  | change (change : BufferChange) (operand : Nat)

/-- What a caller promises of a buffer of so many rows: indices are those of rows, and only a
    single row is repeated. -/
def BufferDerivation.Promised (rows : Nat) : BufferDerivation → Prop
  | gather indices => ∀ i ∈ indices, i < rows
  | broadcast _ => rows = 1
  | _ => True

instance (rows : Nat) (d : BufferDerivation) : Decidable (d.Promised rows) := by
  cases d <;> unfold BufferDerivation.Promised <;> infer_instance

/-! ## Carrying out calls -/

/-- How calls are carried out on one form of buffers. -/
structure Carrier (β : Type) where
  rows : β → Nat
  make : BufferSource → Outcome β
  derive : BufferDerivation → β → Outcome β
  join : List β → Outcome β
  change : BufferChange → β → Outcome Unit × β

namespace Carrier

variable {β : Type}

/-- A new buffer is held after the others; a failure makes none. -/
def hold (held : List β) : Outcome β → List β × Option Failure
  | .ok made => (held ++ [made], none)
  | .error failure => (held, some failure)

/-- The buffers held after a call, and how it failed.  Nothing is done at a position where no
    buffer is held, nor for a caller who breaks a promise. -/
def perform (k : Carrier β) (held : List β) : BufferCall → List β × Option Failure
  | .make source => hold held (k.make source)
  | .derive derivation i =>
    match held[i]? with
    | some b =>
      if derivation.Promised (k.rows b) then hold held (k.derive derivation b) else (held, none)
    | none => (held, none)
  | .joinColumns operands =>
    match operands.mapM fun i => held[i]? with
    | some parts => hold held (k.join parts)
    | none => (held, none)
  | .change change i =>
    match held[i]? with
    | some b =>
      match k.change change b with
      | (.ok (), c) => (held.set i c, none)
      | (.error failure, c) => (held.set i c, some failure)
    | none => (held, none)

/-- The buffers held after calls, from none. -/
def performAll (k : Carrier β) (calls : List BufferCall) : List β :=
  calls.foldl (fun held call => (k.perform held call).1) []

end Carrier

/-! ## Buffers made of rows -/

namespace Buffer

/-- A buffer after an operation in place, which changes nothing if it fails. -/
def replaceBy (b : Buffer) : Outcome Buffer → Outcome Unit × Buffer
  | .ok c => (.ok (), c)
  | .error failure => (.error failure, b)

/-- The buffer of the data. -/
def make : BufferSource → Outcome Buffer
  | .zeros rows cols => zeros rows cols
  | .tryZeros rows cols => tryZeros rows cols
  | .flat data rows cols => ofFlat data rows cols
  | .rows rows => ofRows rows
  | .rowsOfWidth rows cols => ofRowsOfWidth rows cols

/-- The buffer that is made.  Indices of no row, and anything but a single row to repeat, have no
    meaning on buffers made of whole rows: they are a fault, which `Promised` keeps away. -/
def derive (b : Buffer) : BufferDerivation → Outcome Buffer
  | .columns start stop => (·.val) <$> columnRange b.table start stop
  | .mapRows cols f =>
    (·.val) <$> mapRows b.table cols (fun row => f.write row (Array.replicate cols 0))
      (fun row => by simp [f.size_write])
  | .aggregate r index segments => (·.val) <$> r.aggregate b index segments
  | .gather indices =>
    if h : ∀ i ∈ indices, i < b.rows then (·.val) <$> b.gather indices h
    else .error (.fault .outOfRange)
  | .broadcast rows =>
    if h : b.rows = 1 then (·.val) <$> broadcast ⟨b, h⟩ rows else .error (.fault .outOfRange)

/-- What comes of a change, and the buffer after it. -/
def change (b : Buffer) : BufferChange → Outcome Unit × Buffer
  | .resize rows cols => b.replaceBy (b.resize rows cols)
  | .setRow i values => b.replaceBy (b.setRow i values)

end Buffer

/-- Calls on buffers made of whole rows. -/
def Carrier.rowwise : Carrier Buffer where
  rows := Buffer.rows
  make := Buffer.make
  derive d b := b.derive d
  join := Buffer.joinColumns
  change c b := b.change c

/-! ## Raw buffers -/

namespace RawBuffer

/-- The raw buffer of the data. -/
def make : BufferSource → Outcome RawBuffer
  | .zeros rows cols => zeros rows cols
  | .tryZeros rows cols => tryZeros rows cols
  | .flat data rows cols => ofFlat data rows cols
  | .rows rows => ofRows rows
  | .rowsOfWidth rows cols => ofRowsOfWidth rows cols

/-- The raw buffer that is made.  Promises are not looked at: a broken one may also go unseen. -/
def derive (b : RawBuffer) : BufferDerivation → Outcome RawBuffer
  | .columns start stop => b.columns start stop
  | .mapRows cols f => b.mapRows cols f
  | .aggregate r index segments => b.aggregate r index segments
  | .gather indices => b.gather indices
  | .broadcast rows => b.broadcast rows

/-- What comes of a change, and the raw buffer after it, with what was written before a failure. -/
def change (b : RawBuffer) : BufferChange → Outcome Unit × RawBuffer
  | .resize rows cols => resize rows cols b
  | .setRow i values => setRow i values b

end RawBuffer

/-- Calls on raw buffers. -/
def Carrier.positional : Carrier RawBuffer where
  rows := RawBuffer.rows
  make := RawBuffer.make
  derive d b := b.derive d
  join := RawBuffer.joinColumns
  change c b := b.change c

end MessagePassing
