import CoinScript.Bytes

/-!
# Buffer pools

Scratch buffers for parsing scripts, kept for reuse. A buffer is empty when it is borrowed, and a
buffer that is given back is cleared and kept only while fewer than `maxIdle` are waiting.
-/

namespace CoinScript

/-- A byte string under construction, and how many bytes it has room for. -/
structure Buffer where
  bytes : Bytes := []
  room : Nat := 0
  deriving DecidableEq, Repr

def Buffer.append (buffer : Buffer) (bytes : Bytes) : Buffer :=
  let bytes := buffer.bytes ++ bytes
  ⟨bytes, max buffer.room bytes.length⟩

def Buffer.clear (buffer : Buffer) : Buffer := { buffer with bytes := [] }

/-- The buffers waiting for reuse, the one given back last first, and how many may wait. -/
structure BufferPool where
  idle : List Buffer := []
  maxIdle : Nat := 16
  /-- Buffers wait cleared. -/
  idle_empty : ∀ buffer ∈ idle, buffer.bytes = [] := by exact List.forall_mem_nil _
  deriving DecidableEq

namespace BufferPool

/-- The pool in which no buffer waits yet. -/
def empty : BufferPool := {}

/-- A buffer with room for at least `size` more bytes: an idle one if there is any. -/
def borrow (pool : BufferPool) (size : Nat) : Buffer × BufferPool :=
  match h : pool.idle with
  | [] => (⟨[], size⟩, pool)
  | buffer :: rest =>
    ({ buffer with room := max buffer.room (buffer.bytes.length + size) },
     { pool with
       idle := rest
       idle_empty := fun b hb => pool.idle_empty b (by simp [h, hb]) })

/-- Clears a buffer and keeps it, unless enough are waiting already. -/
def release (pool : BufferPool) (buffer : Buffer) : BufferPool :=
  if pool.idle.length < pool.maxIdle then
    { pool with
      idle := buffer.clear :: pool.idle
      idle_empty := by
        intro b hb
        rcases List.mem_cons.1 hb with rfl | hb
        · rfl
        · exact pool.idle_empty b hb }
  else pool

/-- How many buffers are waiting for reuse. -/
def idleCount (pool : BufferPool) : Nat := pool.idle.length

/-- Borrowed buffers are empty. -/
@[simp] theorem borrow_bytes (pool : BufferPool) (size : Nat) : (pool.borrow size).1.bytes = [] := by
  unfold borrow
  split
  · rfl
  · rename_i buffer rest h
    exact pool.idle_empty buffer (by simp [h])

end BufferPool

end CoinScript
