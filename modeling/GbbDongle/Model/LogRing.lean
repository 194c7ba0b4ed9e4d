import GbbDongle.Model.Bytes

/-!
# The log ring (`log_ring_buffer.h`, `log_ring_buffer.cpp`)

Offsets count every byte ever written, in 64 bits, so the buffer index is an
offset modulo the capacity and a read is the stretch between two offsets. The
mutex makes each call one step, which is all this file takes from it.
-/

namespace Gbb

theorem nothing_allocated : ∀ cells : Bytes, none = some cells → 0 < cells.length := nofun

structure LogRingBuffer where
  /-- `buffer_`, as long as the capacity; nothing before `init` succeeded. -/
  buffer : Option Bytes := none
  writeOff : UInt64 := 0
  readOff : UInt64 := 0
  levelGate : UInt8 := 255
  /-- A buffer has room for a byte, so that `%` has a divisor: an allocation of
  no bytes returns none. -/
  allocated : ∀ cells, buffer = some cells → 0 < cells.length := by
    exact nothing_allocated

namespace LogRingBuffer

def capacity (r : LogRingBuffer) : Nat := (r.buffer.getD []).length

/-- `init`; without a capacity the allocation failed, as it does for no bytes. -/
def init (capacity : Option Nat) (r : LogRingBuffer) : LogRingBuffer :=
  { r with
    buffer := (capacity.filter (0 < ·)).map fun n => List.replicate n 0
    allocated := by
      intro cells h
      obtain ⟨n, hn, rfl⟩ := Option.map_eq_some_iff.mp h
      rw [List.length_replicate]
      exact of_decide_eq_true (Option.filter_eq_some_iff.mp hn).2 }

/-- One byte of the loop of `append_`, which only runs over an allocated buffer. -/
def put (c : UInt8) (r : LogRingBuffer) : LogRingBuffer :=
  { r with
    buffer := r.buffer.map fun b => b.set (r.writeOff.toNat % b.length) c
    writeOff := r.writeOff + 1
    allocated := by
      intro cells h
      obtain ⟨b, hb, rfl⟩ := Option.map_eq_some_iff.mp h
      rw [List.length_set]
      exact r.allocated b hb }

/-- `isalpha` in the C locale. -/
def isAlpha (c : UInt8) : Bool := (65 ≤ c && c ≤ 90) || (97 ≤ c && c ≤ 122)

/-- The loop of `append_` over what is left of the message. Inside an escape
sequence bytes are dropped up to and including the next letter; a sequence
that runs to the end of the message takes the closing newline with it. -/
def appendBytes : Bool → Bytes → LogRingBuffer → LogRingBuffer
  | false, [], r => r.put 10
  | true, [], r => r
  | true, c :: rest, r => appendBytes (!isAlpha c) rest r
  | false, c :: rest, r =>
      if c = 27 then appendBytes true rest r else appendBytes false rest (r.put c)

def append (level : UInt8) (message : Bytes) (r : LogRingBuffer) : LogRingBuffer :=
  if r.buffer.isNone || r.levelGate < level || message.isEmpty then r
  else appendBytes false (message.take (r.capacity / 4)) r

/-- The offset of the oldest byte still in the buffer. -/
def oldest (r : LogRingBuffer) : UInt64 :=
  if r.capacity < r.writeOff.toNat then r.writeOff - UInt64.ofNat r.capacity else 0

/-- Where a read resumes: at the reader's own offset, unless the writer lapped it. -/
def resumeOff (r : LogRingBuffer) : UInt64 := if r.readOff < r.oldest then r.oldest else r.readOff

def readIncremental (maxBytes : Nat) (r : LogRingBuffer) : Bytes × LogRingBuffer :=
  match r.buffer with
  | none => ([], r)
  | some buf =>
      let count := (r.writeOff - r.resumeOff).toNat
      let start :=
        if maxBytes < count then r.writeOff - UInt64.ofNat maxBytes else r.resumeOff
      ((List.range (min count maxBytes)).map fun i =>
          buf.getD ((start + UInt64.ofNat i).toNat % buf.length) 0,
        { r with readOff := r.writeOff })

end LogRingBuffer

end Gbb
