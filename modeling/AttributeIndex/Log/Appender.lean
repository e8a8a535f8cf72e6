import AttributeIndex.Bytes

namespace AttributeIndex

structure Appender where
  file : Bytes
  pending : Bytes

namespace Appender

def capacity : Nat := 8192

def toBytes (out : Appender) : Bytes :=
  out.file ++ out.pending

def flush (out : Appender) : Appender :=
  ⟨out.file ++ out.pending, []⟩

/-- Writes bytes to the buffer, flushed first if they exceed its room. Bytes that fill a whole buffer
go to the file at once. -/
def write (out : Appender) (bytes : Bytes) : Appender :=
  let out := if capacity < out.pending.length + bytes.length then out.flush else out
  if capacity ≤ bytes.length then ⟨out.file ++ out.pending ++ bytes, []⟩
  else ⟨out.file, out.pending ++ bytes⟩

@[simp]
theorem toBytes_flush (out : Appender) : out.flush.toBytes = out.toBytes := by
  simp [flush, toBytes]

@[simp]
theorem toBytes_write (out : Appender) (bytes : Bytes) :
    (out.write bytes).toBytes = out.toBytes ++ bytes := by
  simp only [write]
  split <;> split <;> simp [toBytes, flush]

end Appender

end AttributeIndex
