import ShaderBytecode.Container.Header

/-!
# Sessions of reads

A session is a run of reads over one buffer. Each request is answered, or refused with the cause,
and leaves a cursor for the next request. `Session.step` says which cursor that is: a refused
request leaves the one it found, except that a string which is not UTF-8 has been passed over.
-/

namespace ShaderBytecode

/-- What a session can be asked for. -/
inductive Request where
  | u8
  | u16
  | u32
  /-- The bit pattern of a 32-bit float. -/
  | float
  | tag
  | bytes (count : Nat)
  | peek (count : Nat)
  | rest
  | words (count : Nat)
  | string
  | stringAt (position : Nat)
  | seek (position : Nat)
  | header
deriving DecidableEq, Repr

inductive Reply where
  | number (n : Nat)
  | float (pattern : UInt32)
  | tag (t : Tag)
  | bytes (b : Bytes)
  | words (ws : List UInt32)
  | text (s : String)
  | moved
  | header (h : Header)
deriving DecidableEq, Repr

namespace Session

/-- Run a read from a cursor; a failed read leaves the cursor where it was. -/
def attempt (action : Read Reply) (c : Cursor) : Except ReadError Reply × Cursor :=
  match action c with
  | .ok (reply, moved) => (.ok reply, moved)
  | .error e => (.error e, c)

/-- Answer a request that does not move the cursor. -/
def inspect (answer : Except ReadError Reply) (c : Cursor) : Except ReadError Reply × Cursor :=
  (answer, c)

/-- Read a string. A string that is not UTF-8 is refused after its terminator has been passed. -/
def string (c : Cursor) : Except ReadError Reply × Cursor :=
  match Cursor.terminated c with
  | .error e => (.error e, c)
  | .ok (bytes, moved) =>
    match Utf8.decode bytes with
    | .ok text => (.ok (.text text), moved)
    | .error fault => (.error (.text fault), moved)

def step (c : Cursor) : Request → Except ReadError Reply × Cursor
  | .u8 => attempt (return .number (← Cursor.u8).toNat) c
  | .u16 => attempt (return .number (← Cursor.u16).toNat) c
  | .u32 => attempt (return .number (← Cursor.u32).toNat) c
  | .float => attempt (return .float (← Cursor.u32)) c
  | .tag => attempt (return .tag (← Cursor.tag)) c
  | .bytes count => attempt (return .bytes (← Cursor.take count)) c
  | .peek count => inspect ((c.peek count).map .bytes) c
  | .rest => inspect (.ok (.bytes c.rest)) c
  | .words count => attempt (return .words (← Cursor.words count)) c
  | .string => string c
  | .stringAt position => inspect ((c.stringAt position).map .text) c
  | .seek position => attempt (fun c => (c.seek position).map fun c => (.moved, c)) c
  | .header => attempt (return .header (← Header.read)) c

/-- The answers to a run of requests, each with the cursor after it. -/
def run (c : Cursor) : List Request → List (Except ReadError Reply × Cursor)
  | [] => []
  | r :: rs => step c r :: run (step c r).2 rs

end Session
end ShaderBytecode
