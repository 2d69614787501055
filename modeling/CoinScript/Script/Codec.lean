import CoinScript.BufferPool
import CoinScript.Command
import CoinScript.CompactSize

/-!
# Scripts as bytes

A serialized script is a CompactSize length and a body of that many bytes, and a body is a sequence
of command words:

```text
body    := command*
command := N data(N)              1 <= N <= 75
         | 4c N data(N)
         | 4d le16(N) data(N)
         | any other byte         an opcode
```

`OP_PUSHDATA4` is no push here: it is read as an opcode.
-/

namespace CoinScript.Script

/-- Why bytes are not a script. -/
inductive DecodeError where
  | length (error : CompactSize.Error)
  | truncated (expected available : Nat)
  /-- A push reached past the end of a body of `declared` bytes: it needed `needed` of them. -/
  | overrun (declared needed : Nat)
  deriving DecidableEq, Repr

def DecodeError.message : DecodeError → String
  | .length error => "couldn't read the script length: " ++ error.message
  | .truncated expected available =>
    "script declared " ++ toString expected ++ " bytes, but only " ++ toString available
      ++ " were available"
  | .overrun declared needed =>
    "a push ran past the end of the script: declared " ++ toString declared ++ " bytes, needed "
      ++ toString needed

/-- Why an operation on scripts fails. -/
inductive Error where
  | decode (error : DecodeError)
  /-- A push of `size` bytes has no encoding. -/
  | encode (size : Nat)
  | unrecognizedTemplate
  deriving DecidableEq, Repr

def Error.message : Error → String
  | .decode error => "failed to decode script: " ++ error.message
  | .encode size =>
    "push of " ++ toString size ++ " bytes exceeds the maximum of " ++ toString maxElementSize
  | .unrecognizedTemplate => "script doesn't match any template with an address"

-- ---------------------------------------------------------------------------
-- Encoding
-- ---------------------------------------------------------------------------

/-- The largest push with a one-byte length in front. -/
def maxDirectPush : Nat := 0x4b

/-- The bytes in front of the data of a push of `size` bytes. -/
def pushHeader (size : Nat) : Except Error Bytes :=
  if size ≤ maxDirectPush then .ok [UInt8.ofNat size]
  else if size ≤ 0xff then .ok [Opcode.opPushData1.byte, UInt8.ofNat size]
  else if size ≤ maxElementSize then .ok (Opcode.opPushData2.byte :: Bytes.ofNatLE 2 size)
  else .error (.encode size)

/-- The word of a command. -/
def encodeCommand : Command → Except Error Bytes
  | .opcode byte => .ok [byte]
  | .push data => (pushHeader data.length).map (· ++ data)

/-- The words of the commands, one after the other. -/
def encode : Script → Except Error Bytes
  | [] => .ok []
  | command :: rest => do
    let word ← encodeCommand command
    let words ← encode rest
    return word ++ words

/-- The body with its length in front. -/
def serialize (script : Script) : Except Error Bytes :=
  (encode script).map fun body => CompactSize.encode body.length ++ body

-- ---------------------------------------------------------------------------
-- Decoding
-- ---------------------------------------------------------------------------

/-- The first `n` bytes and the rest, or how many bytes are missing. -/
def takeBytes (n : Nat) (input : Bytes) : Except Nat (Bytes × Bytes) :=
  let data := input.take n
  if data.length < n then .error (n - data.length) else .ok (data, input.drop n)

/-- A push of the next `n` bytes. -/
def takePush (n : Nat) (input : Bytes) : Except Nat (Command × Bytes) :=
  (takeBytes n input).map fun (data, rest) => (.push data, rest)

/-- The command that starts with the byte `lead` and the bytes after it, or how many bytes it lacks. -/
def decodeCommand (lead : UInt8) (input : Bytes) : Except Nat (Command × Bytes) :=
  if 0x01 ≤ lead ∧ lead.toNat ≤ maxDirectPush then takePush lead.toNat input
  else if lead = Opcode.opPushData1.byte then do
    let (size, rest) ← takeBytes 1 input
    takePush size.toNatLE rest
  else if lead = Opcode.opPushData2.byte then do
    let (size, rest) ← takeBytes 2 input
    takePush size.toNatLE rest
  else .ok (.opcode lead, input)

theorem length_of_takeBytes {n : Nat} {input data rest : Bytes}
    (h : takeBytes n input = .ok (data, rest)) : data.length + rest.length = input.length := by
  simp only [takeBytes] at h
  split at h
  · cases h
  · cases h; simp; omega

theorem length_of_takePush {n : Nat} {input rest : Bytes} {command : Command}
    (h : takePush n input = .ok (command, rest)) : rest.length ≤ input.length := by
  unfold takePush at h
  cases ht : takeBytes n input with
  | error missing => simp [ht, Except.map] at h
  | ok taken =>
    obtain ⟨data, rest'⟩ := taken
    have := length_of_takeBytes ht
    simp only [ht, Except.map, Except.ok.injEq, Prod.mk.injEq] at h
    obtain ⟨-, rfl⟩ := h
    omega

/-- Decoding a command never lengthens the input. -/
theorem length_of_decodeCommand {lead : UInt8} {input rest : Bytes} {command : Command}
    (h : decodeCommand lead input = .ok (command, rest)) : rest.length ≤ input.length := by
  unfold decodeCommand at h
  split at h
  · exact length_of_takePush h
  · split at h
    · cases ht : takeBytes 1 input with
      | error missing => simp [ht, bind, Except.bind] at h
      | ok taken =>
        obtain ⟨size, left⟩ := taken
        have := length_of_takeBytes ht
        simp only [ht, bind, Except.bind] at h
        have := length_of_takePush h
        omega
    · split at h
      · cases ht : takeBytes 2 input with
        | error missing => simp [ht, bind, Except.bind] at h
        | ok taken =>
          obtain ⟨size, left⟩ := taken
          have := length_of_takeBytes ht
          simp only [ht, bind, Except.bind] at h
          have := length_of_takePush h
          omega
      · cases h; exact Nat.le_refl _

/-- A place within a body of `declared` bytes, of which `rest` is still to be decoded. -/
structure Cursor where
  declared : Nat
  rest : Bytes
  deriving DecidableEq, Repr

namespace Cursor

/-- The start of a body. -/
def start (body : Bytes) : Cursor := ⟨body.length, body⟩

/-- How many bytes have been decoded. -/
def consumed (cursor : Cursor) : Nat := cursor.declared - cursor.rest.length

/-- The next command, or the reason why there is none, with the place after it. Nothing is left after
a failure. -/
def next (cursor : Cursor) : Option (Except DecodeError Command × Cursor) :=
  match cursor.rest with
  | [] => none
  | lead :: input =>
    match decodeCommand lead input with
    | .ok (command, rest) => some (.ok command, { cursor with rest })
    | .error missing =>
      some (.error (.overrun cursor.declared (cursor.declared + missing)), { cursor with rest := [] })

theorem rest_of_next {cursor after : Cursor} {item : Except DecodeError Command}
    (h : cursor.next = some (item, after)) : after.rest.length < cursor.rest.length := by
  unfold next at h
  split at h
  · cases h
  · rename_i lead input hrest
    split at h
    · rename_i command rest hd
      cases h
      have := length_of_decodeCommand hd
      simp [hrest]
      omega
    · cases h
      simp [hrest]

/-- All that `next` yields from here on, each item with the place after it. -/
def items (cursor : Cursor) : List (Except DecodeError Command × Cursor) :=
  match _ : cursor.next with
  | none => []
  | some (item, after) => (item, after) :: after.items
termination_by cursor.rest.length
decreasing_by exact rest_of_next ‹_›

/-- The commands from here to the end of the body. -/
def commands (cursor : Cursor) : Except DecodeError Script :=
  match _ : cursor.next with
  | none => .ok []
  | some (.error error, _) => .error error
  | some (.ok command, after) => after.commands.map (command :: ·)
termination_by cursor.rest.length
decreasing_by exact rest_of_next ‹_›

end Cursor

/-- The commands of a body, every byte of which has to belong to one. -/
def decode (body : Bytes) : Except DecodeError Script := (Cursor.start body).commands

-- ---------------------------------------------------------------------------
-- Reading serialized scripts
-- ---------------------------------------------------------------------------

/-- Reads a length and a body of that many bytes, and returns what is left of the input, also if the
length cannot be read or the body is not a script. -/
def read (input : Bytes) : Except DecodeError Script × Bytes :=
  match CompactSize.read input with
  | .error error => (.error (.length error), CompactSize.unread input)
  | .ok (declared, rest) =>
    let body := rest.take declared
    if body.length < declared then (.error (.truncated declared body.length), [])
    else (decode body, rest.drop declared)

/-- Reads one length-prefixed script. -/
def parse (input : Bytes) : Except Error Script × Bytes :=
  let (result, rest) := read input
  (result.mapError .decode, rest)

/-- Reads a body without its length, by putting the length in front in a buffer of the pool. -/
def parseRawWith (pool : BufferPool) (body : Bytes) : Except Error Script × BufferPool :=
  let (buffer, pool) := pool.borrow (CompactSize.encodedLength body.length + body.length)
  let buffer := buffer.append (CompactSize.encode body.length)
  let buffer := buffer.append body
  ((parse buffer.bytes).1, pool.release buffer)

/-- Reads a body without its length. -/
def parseRaw (body : Bytes) : Except Error Script := (parseRawWith .empty body).1

/-- A script that is read takes at least the bytes of its length off the input. -/
theorem length_rest_of_read {input rest : Bytes} {script : Script}
    (h : read input = (.ok script, rest)) : rest.length < input.length := by
  unfold read at h
  split at h
  · cases h
  · rename_i declared after hsize
    have hlt := CompactSize.length_rest_of_read hsize
    simp only at h
    split at h
    · cases h
    · simp only [Prod.mk.injEq] at h
      obtain ⟨-, rfl⟩ := h
      simp
      omega

/-- Reads scripts one after the other, at least one, until the input ends or one cannot be read. -/
def readStream (input : Bytes) : List (Except DecodeError Script × Bytes) :=
  match _ : read input with
  | (.error error, rest) => [(.error error, rest)]
  | (.ok script, []) => [(.ok script, [])]
  | (.ok script, rest) => (.ok script, rest) :: readStream rest
termination_by input.length
decreasing_by exact length_rest_of_read ‹_›

end CoinScript.Script
