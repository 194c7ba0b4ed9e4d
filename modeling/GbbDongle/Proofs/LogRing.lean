import GbbDongle.Lib.Ring
import GbbDongle.Model.LogRing

/-!
# What LastLog is made of

The ring is a buffer of the newest bytes of one stream, everything `append_`
has written since `init`. `Serves` splits that stream at the last read: what
is old was there then, what is fresh came since. Writing adds to the fresh
part, reading makes everything old, and what the reads have returned is, in
order, a part of the old bytes. All of this holds while the 64-bit offsets
count the stream, that is, for fewer than 2^64 bytes.

The second half is about one message. The loop of `append_` writes the message
without its escape sequences and then a newline, but a sequence that runs to
the end of what is looked at takes the newline with it: the index that leaves
the inner loop at the end is advanced once more by the outer one, past the
sentinel.
-/

namespace Gbb

namespace LogRingBuffer

variable {n : Nat} {r : LogRingBuffer} {old fresh out : Bytes}

theorem buffer_put {c : UInt8} : (r.put c).buffer =
    r.buffer.map fun cells => cells.set (r.writeOff.toNat % cells.length) c := rfl

/-- Bytes written one after another. -/
def putAll (bytes : Bytes) (r : LogRingBuffer) : LogRingBuffer :=
  bytes.foldl (fun r c => r.put c) r

theorem putAll_cons {c : UInt8} {bytes : Bytes} :
    r.putAll (c :: bytes) = (r.put c).putAll bytes := rfl

/-- What the loop of `append_` writes for what is left of a message. -/
def recordedRest : Bool → Bytes → Bytes
  | false, [] => [10]
  | true, [] => []
  | true, c :: rest => recordedRest (!isAlpha c) rest
  | false, c :: rest =>
      if c = 27 then recordedRest true rest else c :: recordedRest false rest

/-- The part of a message that `append_` looks at. -/
def clipped (message : Bytes) (r : LogRingBuffer) : Bytes := message.take (r.capacity / 4)

/-- What `append_` writes. -/
def recorded (level : UInt8) (message : Bytes) (r : LogRingBuffer) : Bytes :=
  if r.buffer.isNone || r.levelGate < level || message.isEmpty then []
  else recordedRest false (r.clipped message)

theorem appendBytes_eq {message : Bytes} {inEscape : Bool} :
    appendBytes inEscape message r = r.putAll (recordedRest inEscape message) := by
  induction message generalizing inEscape r with
  | nil => cases inEscape <;> rfl
  | cons c rest ih =>
      cases inEscape with
      | true => exact ih
      | false =>
          rw [appendBytes, recordedRest]
          split
          · exact ih
          · exact ih

theorem append_eq {level : UInt8} {message : Bytes} :
    r.append level message = r.putAll (r.recorded level message) := by
  rw [append, recorded]
  split
  · rfl
  · exact appendBytes_eq

/-- The write offset counts what is written, in 64 bits. -/
@[simp] theorem writeOff_putAll {bytes : Bytes} :
    (r.putAll bytes).writeOff = r.writeOff + UInt64.ofNat bytes.length := by
  induction bytes generalizing r with
  | nil => exact (UInt64.add_zero _).symm
  | cons c bytes ih =>
      have hput : (r.put c).writeOff = r.writeOff + 1 := rfl
      rw [putAll_cons, ih, hput, List.length_cons, UInt64.ofNat_add, UInt64.add_assoc,
        UInt64.add_comm 1]
      rfl

/-- What a message adds does not depend on what is in the buffer. -/
@[simp] theorem recorded_putAll {level : UInt8} {message bytes : Bytes} :
    (r.putAll bytes).recorded level message = r.recorded level message := by
  induction bytes generalizing r with
  | nil => rfl
  | cons c bytes ih =>
      have hcap : (r.put c).capacity = r.capacity := by
        rw [capacity, capacity, buffer_put]
        cases r.buffer with
        | none => rfl
        | some cells => exact List.length_set
      have hnone : (r.put c).buffer.isNone = r.buffer.isNone := Option.isNone_map
      rw [putAll_cons, ih, recorded, recorded, clipped, clipped, hcap, hnone]
      rfl

@[simp] theorem readOff_putAll {bytes : Bytes} : (r.putAll bytes).readOff = r.readOff := by
  induction bytes generalizing r with
  | nil => rfl
  | cons c bytes ih =>
      rw [putAll_cons, ih]
      rfl

/-! ## Offsets -/

theorem toNat_sub_ofNat {off : UInt64} {k : Nat} (hk : k ≤ off.toNat) :
    (off - UInt64.ofNat k).toNat = off.toNat - k := by
  have hsize : k < UInt64.size := Nat.lt_of_le_of_lt hk off.toNat_lt
  have hnat : (UInt64.ofNat k).toNat = k := UInt64.toNat_ofNat_of_lt' hsize
  rw [UInt64.toNat_sub_of_le, hnat]
  rwa [UInt64.le_iff_toNat_le, hnat]

theorem toNat_add_ofNat {off : UInt64} {k : Nat} (hk : off.toNat + k < 2 ^ 64) :
    (off + UInt64.ofNat k).toNat = off.toNat + k := by
  have hnat : (UInt64.ofNat k).toNat = k :=
    UInt64.toNat_ofNat_of_lt' (show k < 2 ^ 64 by omega)
  rw [UInt64.toNat_add, hnat, Nat.mod_eq_of_lt hk]

theorem oldest_toNat : r.oldest.toNat = r.writeOff.toNat - r.capacity := by
  rw [oldest]
  split
  next hlap => exact toNat_sub_ofNat (by omega)
  next hlap =>
    rw [UInt64.toNat_zero]
    omega

theorem resumeOff_toNat :
    r.resumeOff.toNat = max r.readOff.toNat (r.writeOff.toNat - r.capacity) := by
  have hold : r.oldest.toNat = r.writeOff.toNat - r.capacity := oldest_toNat
  rw [resumeOff, ← hold]
  simp only [UInt64.lt_iff_toNat_lt]
  split <;> omega

theorem readIncremental_none (hb : r.buffer = none) (maxBytes : Nat) :
    r.readIncremental maxBytes = ([], r) := by
  rw [readIncremental]
  split
  · rfl
  next hsome =>
    rw [hb] at hsome
    cases hsome

theorem readIncremental_some {cells : Bytes} (hb : r.buffer = some cells) (maxBytes : Nat) :
    r.readIncremental maxBytes =
      let count := (r.writeOff - r.resumeOff).toNat
      let start := if maxBytes < count then r.writeOff - UInt64.ofNat maxBytes else r.resumeOff
      ((List.range (min count maxBytes)).map fun i =>
          cells.getD ((start + UInt64.ofNat i).toNat % cells.length) 0,
        { r with readOff := r.writeOff }) := by
  rw [readIncremental]
  split
  next hnone =>
    rw [hb] at hnone
    cases hnone
  next hsome =>
    rw [hb] at hsome
    cases hsome
    rfl

/-- A read returns the newest bytes: the reader's own offset, the oldest byte
still there and the newest `maxBytes` all bound it, and the latest wins. -/
theorem readIncremental_newest {cells : Bytes} (hb : r.buffer = some cells)
    (hread : r.readOff.toNat ≤ r.writeOff.toNat) (maxBytes : Nat) {k : Nat}
    (hk : k = min maxBytes (min cells.length (r.writeOff.toNat - r.readOff.toNat))) :
    (r.readIncremental maxBytes).1 = (List.range k).map fun i =>
      cells.getD ((r.writeOff.toNat - k + i) % cells.length) 0 := by
  have hcap : r.capacity = cells.length := by rw [capacity, hb, Option.getD_some]
  have hresume : r.resumeOff.toNat = max r.readOff.toNat (r.writeOff.toNat - cells.length) := by
    rw [resumeOff_toNat, hcap]
  have hcount : (r.writeOff - r.resumeOff).toNat = r.writeOff.toNat - r.resumeOff.toNat := by
    apply UInt64.toNat_sub_of_le
    rw [UInt64.le_iff_toNat_le]
    omega
  have hstart : (if maxBytes < (r.writeOff - r.resumeOff).toNat
      then r.writeOff - UInt64.ofNat maxBytes else r.resumeOff).toNat = r.writeOff.toNat - k := by
    split
    · rw [toNat_sub_ofNat (by omega)]
      omega
    · omega
  have hmin : min (r.writeOff - r.resumeOff).toNat maxBytes = k := by omega
  have hsize := r.writeOff.toNat_lt
  rw [readIncremental_some hb]
  dsimp only
  rw [hmin]
  apply List.map_congr_left
  intro i hi
  have hi : i < k := List.mem_range.mp hi
  rw [toNat_add_ofNat (by omega), hstart]

/-! ## The stream, and where the reader stands in it -/

/-- The ring over `old ++ fresh`, last read when `old` was all there was; `out`
is what the reads have returned so far. -/
structure Serves (n : Nat) (old fresh out : Bytes) (r : LogRingBuffer) : Prop where
  cells : ∃ cells, r.buffer = some cells ∧ cells.length = n ∧ Ring.Holds cells (old ++ fresh)
  written : r.writeOff.toNat = (old ++ fresh).length
  read : r.readOff.toNat = old.length
  sublist : out.Sublist old

theorem Serves.put (h : Serves n old fresh out r) (c : UInt8)
    (hroom : (old ++ fresh).length + 1 < 2 ^ 64) :
    Serves n old (fresh ++ [c]) out (r.put c) := by
  obtain ⟨cells, hb, hlen, hholds⟩ := h.cells
  have hnext := hholds.snoc c
  rw [List.append_assoc, ← h.written] at hnext
  constructor
  · refine ⟨cells.set (r.writeOff.toNat % cells.length) c, ?_, ?_, hnext⟩
    · rw [buffer_put, hb]
      rfl
    · rw [List.length_set, hlen]
  · have hone : (r.put c).writeOff.toNat = r.writeOff.toNat + 1 :=
      toNat_add_ofNat (by rwa [h.written])
    rw [hone, h.written]
    simp only [List.length_append, List.length_singleton]
    omega
  · exact h.read
  · exact h.sublist

theorem Serves.putAll (h : Serves n old fresh out r) (bytes : Bytes)
    (hroom : (old ++ fresh ++ bytes).length < 2 ^ 64) :
    Serves n old (fresh ++ bytes) out (r.putAll bytes) := by
  induction bytes generalizing fresh r with
  | nil =>
      rw [List.append_nil]
      exact h
  | cons c bytes ih =>
      have hone : (old ++ fresh).length + 1 < 2 ^ 64 := by
        rw [List.length_append, List.length_cons] at hroom
        omega
      have hrest := ih (h.put c hone) (by simpa using hroom)
      rwa [List.append_assoc] at hrest

/-- A read serves the newest fresh bytes. -/
theorem Serves.readIncremental_eq (h : Serves n old fresh out r) (maxBytes : Nat) :
    (r.readIncremental maxBytes).1 = fresh.rtake (min maxBytes (min n fresh.length)) := by
  obtain ⟨cells, hb, hlen, hholds⟩ := h.cells
  have hw := h.written
  have hr := h.read
  have hall : (old ++ fresh).length = old.length + fresh.length := List.length_append
  have htail : (old ++ fresh).rtake (min maxBytes (min n fresh.length)) =
      fresh.rtake (min maxBytes (min n fresh.length)) := Ring.rtake_append_of_le (by omega)
  rw [← htail, ← hholds.newest (by omega) (by omega) 0, ← hw]
  exact readIncremental_newest hb (by omega) maxBytes (by omega)

/-- After a read nothing is fresh, and what it returned was. -/
theorem Serves.readIncremental (h : Serves n old fresh out r) (maxBytes : Nat) :
    Serves n (old ++ fresh) [] (out ++ (r.readIncremental maxBytes).1)
      (r.readIncremental maxBytes).2 := by
  obtain ⟨cells, hb, hlen, hholds⟩ := h.cells
  have hpost : (r.readIncremental maxBytes).2 = { r with readOff := r.writeOff } := by
    rw [readIncremental_some hb]
  have hsub : (r.readIncremental maxBytes).1.Sublist fresh := by
    rw [h.readIncremental_eq]
    exact List.drop_sublist _ _
  rw [hpost]
  constructor
  · refine ⟨cells, hb, hlen, ?_⟩
    rwa [List.append_nil]
  · rw [List.append_nil]
    exact h.written
  · exact h.written
  · exact h.sublist.append hsub

end LogRingBuffer

/-! ## Any sequence of calls -/

inductive LogOp
  | append (level : UInt8) (message : Bytes)
  | setLevelGate (gate : UInt8)
  | read (maxBytes : Nat)

namespace LogOp

variable {n : Nat} {r : LogRingBuffer} {old fresh out : Bytes} {op : LogOp} {ops : List LogOp}

def perform : LogOp → LogRingBuffer → LogRingBuffer
  | .append level message, r => r.append level message
  | .setLevelGate gate, r => { r with levelGate := gate }
  | .read maxBytes, r => (r.readIncremental maxBytes).2

/-- The bytes a call adds to the stream. -/
def wrote : LogOp → LogRingBuffer → Bytes
  | .append level message, r => r.recorded level message
  | .setLevelGate _, _ => []
  | .read _, _ => []

/-- The bytes a call returns. -/
def returned : LogOp → LogRingBuffer → Bytes
  | .append _ _, _ => []
  | .setLevelGate _, _ => []
  | .read maxBytes, r => (r.readIncremental maxBytes).1

def runAll (ops : List LogOp) (r : LogRingBuffer) : LogRingBuffer :=
  ops.foldl (fun r op => op.perform r) r

/-- The log stream: everything `append_` writes in the course of `ops`. -/
def stream : List LogOp → LogRingBuffer → Bytes
  | [], _ => []
  | op :: ops, r => op.wrote r ++ stream ops (op.perform r)

/-- Everything the reads among `ops` return, one after another. -/
def served : List LogOp → LogRingBuffer → Bytes
  | [], _ => []
  | op :: ops, r => op.returned r ++ served ops (op.perform r)

/-- A ring right after `init`, with whatever gate was set before. -/
def ready (n : Nat) (gate : UInt8) : LogRingBuffer :=
  LogRingBuffer.init (some n) { levelGate := gate }

theorem runAll_append {ops' : List LogOp} :
    runAll (ops ++ ops') r = runAll ops' (runAll ops r) := List.foldl_append

theorem stream_append {ops' : List LogOp} :
    stream (ops ++ ops') r = stream ops r ++ stream ops' (runAll ops r) := by
  induction ops generalizing r with
  | nil => rfl
  | cons op ops ih =>
      rw [List.cons_append, stream, stream, ih, List.append_assoc]
      rfl

theorem buffer_ready (hn : 0 < n) (gate : UInt8) :
    (ready n gate).buffer = some (List.replicate n 0) := by
  rw [ready, LogRingBuffer.init]
  simp only [Option.filter_some, hn, decide_true, if_true, Option.map_some]

theorem ready_serves (hn : 0 < n) (gate : UInt8) :
    LogRingBuffer.Serves n [] [] [] (ready n gate) := by
  constructor
  · exact ⟨List.replicate n 0, buffer_ready hn gate, List.length_replicate, Ring.Holds.nil⟩
  · rfl
  · rfl
  · exact List.Sublist.refl _

/-- A call that is no read leaves the reader where it is. -/
theorem serves_perform (h : r.Serves n old fresh out) (hop : ∀ k, op ≠ .read k)
    (hroom : (old ++ fresh ++ op.wrote r).length < 2 ^ 64) :
    LogRingBuffer.Serves n old (fresh ++ op.wrote r) out (op.perform r) := by
  cases op with
  | append level message =>
      rw [perform, LogRingBuffer.append_eq]
      exact h.putAll _ hroom
  | setLevelGate gate =>
      rw [wrote, List.append_nil]
      exact ⟨h.cells, h.written, h.read, h.sublist⟩
  | read k => exact absurd rfl (hop k)

theorem serves_runAll (h : r.Serves n old fresh out)
    (hops : ∀ op ∈ ops, ∀ k, op ≠ .read k)
    (hroom : (old ++ fresh ++ stream ops r).length < 2 ^ 64) :
    LogRingBuffer.Serves n old (fresh ++ stream ops r) out (runAll ops r) := by
  induction ops generalizing r fresh with
  | nil =>
      rw [stream, List.append_nil]
      exact h
  | cons op ops ih =>
      rw [stream, ← List.append_assoc] at hroom
      have hfirst : (old ++ fresh ++ op.wrote r).length < 2 ^ 64 := by
        rw [List.length_append] at hroom
        omega
      have hstep := serves_perform h (hops op (by simp)) hfirst
      rw [List.append_assoc old] at hroom
      have hrest := ih hstep (fun x hx => hops x (by simp [hx])) hroom
      rwa [List.append_assoc] at hrest

/-- Whatever the calls, the ring serves the stream they wrote, and what the
reads have returned is made of the part older than the last of them. -/
theorem serves_run (h : r.Serves n old fresh out) (ops : List LogOp)
    (hroom : (old ++ fresh ++ stream ops r).length < 2 ^ 64) :
    ∃ old' fresh', LogRingBuffer.Serves n old' fresh' (out ++ served ops r) (runAll ops r) ∧
      old' ++ fresh' = old ++ fresh ++ stream ops r := by
  induction ops generalizing r old fresh out with
  | nil => exact ⟨old, fresh, by rwa [served, List.append_nil], by rw [stream, List.append_nil]⟩
  | cons op ops ih =>
      by_cases hop : ∃ k, op = .read k
      · obtain ⟨k, rfl⟩ := hop
        obtain ⟨old', fresh', hrun, heq⟩ := ih (h.readIncremental k) (by
          rw [List.append_nil]
          exact hroom)
        refine ⟨old', fresh', ?_, ?_⟩
        · rwa [List.append_assoc] at hrun
        · rw [heq, List.append_nil]
          rfl
      · have hno : ∀ k, op ≠ .read k := fun k hk => hop ⟨k, hk⟩
        rw [stream, ← List.append_assoc] at hroom
        have hfirst : (old ++ fresh ++ op.wrote r).length < 2 ^ 64 := by
          rw [List.length_append] at hroom
          omega
        rw [List.append_assoc old] at hroom
        obtain ⟨old', fresh', hrun, heq⟩ := ih (serves_perform h hno hfirst) hroom
        have hnone : op.returned r = [] := by
          cases op with
          | append level message => rfl
          | setLevelGate gate => rfl
          | read k => exact absurd rfl (hno k)
        refine ⟨old', fresh', ?_, ?_⟩
        · rw [served, hnone]
          exact hrun
        · rw [heq, stream]
          simp only [List.append_assoc]

/-- The write offset is the length of the stream, in 64 bits. -/
theorem writeOff_runAll :
    (runAll ops r).writeOff = r.writeOff + UInt64.ofNat (stream ops r).length := by
  induction ops generalizing r with
  | nil => exact (UInt64.add_zero _).symm
  | cons op ops ih =>
      have hstep : (op.perform r).writeOff = r.writeOff + UInt64.ofNat (op.wrote r).length := by
        cases op with
        | append level message =>
            rw [perform, LogRingBuffer.append_eq, LogRingBuffer.writeOff_putAll, wrote]
        | setLevelGate gate => exact (UInt64.add_zero _).symm
        | read k =>
            rw [perform, LogRingBuffer.readIncremental]
            split <;> exact (UInt64.add_zero _).symm
      have hrest : (runAll ops (op.perform r)).writeOff = _ := ih
      rw [stream, List.length_append, UInt64.ofNat_add, ← UInt64.add_assoc, ← hstep]
      exact hrest

theorem readOff_runAll (hops : ∀ op ∈ ops, ∀ k, op ≠ .read k) :
    (runAll ops r).readOff = r.readOff := by
  induction ops generalizing r with
  | nil => rfl
  | cons op ops ih =>
      have hstep : (op.perform r).readOff = r.readOff := by
        cases op with
        | append level message =>
            rw [perform, LogRingBuffer.append_eq, LogRingBuffer.readOff_putAll]
        | setLevelGate gate => rfl
        | read k => exact absurd rfl (hops _ (by simp) k)
      rw [← hstep]
      exact ih fun x hx => hops x (by simp [hx])

/-- One message over and over. -/
theorem stream_replicate (count : Nat) {level : UInt8} {message : Bytes} :
    stream (List.replicate count (.append level message)) r =
      (List.replicate count (r.recorded level message)).flatten := by
  induction count generalizing r with
  | zero => rfl
  | succ count ih =>
      rw [List.replicate_succ, stream, ih, perform, LogRingBuffer.append_eq,
        LogRingBuffer.recorded_putAll, List.replicate_succ, List.flatten_cons, wrote]

/-- After a whole turn of the offsets with no read in it nothing seems unread. -/
theorem nothing_after_turn {gate : UInt8} (hops : ∀ op ∈ ops, ∀ k, op ≠ .read k)
    (hturn : (stream ops (ready n gate)).length = 2 ^ 64) (maxBytes : Nat) :
    ((runAll ops (ready n gate)).readIncremental maxBytes).1 = [] := by
  have hw : (runAll ops (ready n gate)).writeOff.toNat = 0 := by
    rw [writeOff_runAll, hturn]
    rfl
  have hr : (runAll ops (ready n gate)).readOff.toNat = 0 := by
    rw [readOff_runAll hops]
    rfl
  cases hb : (runAll ops (ready n gate)).buffer with
  | none => rw [LogRingBuffer.readIncremental_none hb]
  | some cells =>
      rw [LogRingBuffer.readIncremental_newest hb (by omega) maxBytes (show 0 = _ by omega)]
      rfl

/-- At the start and after a read nothing is fresh. -/
theorem serves_last_read (hn : 0 < n) (gate : UInt8) {before : List LogOp}
    (hlast : before = [] ∨ ∃ ops k, before = ops ++ [.read k])
    (hroom : (stream before (ready n gate)).length < 2 ^ 64) :
    ∃ out, LogRingBuffer.Serves n (stream before (ready n gate)) [] out
      (runAll before (ready n gate)) := by
  rcases hlast with rfl | ⟨ops, k, rfl⟩
  · exact ⟨[], ready_serves hn gate⟩
  · have hnone : stream [.read k] (runAll ops (ready n gate)) = [] := rfl
    rw [stream_append, hnone, List.append_nil] at hroom ⊢
    obtain ⟨old, fresh, hrun, heq⟩ := serves_run (ready_serves hn gate) ops hroom
    have hread := hrun.readIncremental k
    rw [heq] at hread
    rw [runAll_append]
    exact ⟨_, hread⟩

end LogOp

open LogOp in
/-- Any calls up to and including some read (or none yet), then calls that are
no reads, then a read: it returns the newest bytes written in between, as many
as the capacity and the caller allow. -/
theorem read_serves_newest {n : Nat} (hn : 0 < n) {gate : UInt8} {before between : List LogOp}
    (hlast : before = [] ∨ ∃ ops k, before = ops ++ [.read k])
    (hsince : ∀ op ∈ between, ∀ k, op ≠ .read k)
    (hroom : (stream (before ++ between) (ready n gate)).length < 2 ^ 64) (maxBytes : Nat) :
    let r := runAll (before ++ between) (ready n gate)
    let log := stream (before ++ between) (ready n gate)
    let fresh := stream between (runAll before (ready n gate))
    let result := (r.readIncremental maxBytes).1
    result = log.rtake (min maxBytes (min n fresh.length)) ∧
      (∃ lost, log = stream before (ready n gate) ++ lost ++ result) ∧
      (fresh.length ≤ min maxBytes n → result = fresh) ∧
      (served (before ++ between) (ready n gate) ++ result).Sublist log ∧
      ∃ cells, r.buffer = some cells ∧ ∀ offset, offset % r.capacity < cells.length := by
  intro r log fresh result
  have hlog : log = stream before (ready n gate) ++ fresh := stream_append
  have hsplit : log.length < 2 ^ 64 := hroom
  rw [hlog, List.length_append] at hsplit
  obtain ⟨out, hbefore⟩ := serves_last_read hn gate hlast (by omega)
  have hnow := serves_runAll hbefore hsince (by
    rw [List.append_nil, List.length_append]
    exact hsplit)
  rw [List.nil_append, ← runAll_append] at hnow
  have hresult : result = fresh.rtake (min maxBytes (min n fresh.length)) :=
    hnow.readIncremental_eq maxBytes
  refine ⟨?_, ?_, ?_, ?_, ?_⟩
  · rw [hresult, hlog, Ring.rtake_append_of_le (by omega)]
  · refine ⟨fresh.take (fresh.length - min maxBytes (min n fresh.length)), ?_⟩
    rw [hresult, List.append_assoc, List.rtake, List.take_append_drop]
    exact hlog
  · intro hfits
    rw [hresult, show min maxBytes (min n fresh.length) = fresh.length by omega, List.rtake,
      Nat.sub_self, List.drop_zero]
  · obtain ⟨old, rest, hrun, heq⟩ :=
      serves_run (ready_serves hn gate) (before ++ between) hroom
    have hall := (hrun.readIncremental maxBytes).sublist
    rwa [heq] at hall
  · obtain ⟨cells, hb, hlen, -⟩ := hnow.cells
    refine ⟨cells, hb, ?_⟩
    intro offset
    rw [LogRingBuffer.capacity, show r.buffer = some cells from hb, Option.getD_some]
    exact Nat.mod_lt _ (by omega)

/-- Eight bytes of log, lapped once and read in two goes. -/
theorem read_serves_newest_lapped :
    ((LogOp.runAll [.append 3 [97], .read 8, .append 3 [98], .append 3 [99],
      .append 3 [100], .append 3 [101], .append 3 [102]]
        (LogOp.ready 8 5)).readIncremental 4).1 = [101, 10, 102, 10] :=
  (@read_serves_newest 8 (by decide) 5 [.append 3 [97], .read 8]
    [.append 3 [98], .append 3 [99], .append 3 [100], .append 3 [101], .append 3 [102]]
    (.inr ⟨[.append 3 [97]], 8, rfl⟩) (by simp) (by decide) 4).1.trans (by decide)

open LogOp in
/-- The offsets have 64 bits: when the two bytes of one short message have been
written 2^63 times with no read in between, a read of the newest four bytes
returns none. -/
theorem nothing_read_after_turn :
    let ops := List.replicate (2 ^ 63) (LogOp.append 3 [97])
    let log := stream ops (ready 8 5)
    let result := ((runAll ops (ready 8 5)).readIncremental 4).1
    log.length = 2 ^ 64 ∧ result = [] ∧ result ≠ log.rtake (min 4 (min 8 log.length)) := by
  intro ops log result
  have hone : (ready 8 5).recorded 3 [97] = [97, 10] := by decide
  have hlen : log.length = 2 ^ 64 := by
    have hlog : log = _ := stream_replicate (2 ^ 63)
    rw [hlog, hone, List.length_flatten, List.map_replicate,
      List.sum_replicate_nat]
    rfl
  have hnone : result = [] := by
    apply nothing_after_turn ?_ hlen
    intro op hop k
    rw [List.eq_of_mem_replicate hop]
    exact nofun
  refine ⟨hlen, hnone, ?_⟩
  intro h
  have hzero := congrArg List.length h
  rw [hnone, hlen, List.rtake, List.length_drop, hlen] at hzero
  exact absurd hzero (by decide)

/-! ## One message, one line -/

namespace LogRingBuffer

/-- What is left after the rest of an escape sequence, its closing letter included. -/
def afterEscape (message : Bytes) : Bytes := (message.dropWhile (!isAlpha ·)).drop 1

theorem afterEscape_length_le (message : Bytes) :
    (afterEscape message).length ≤ message.length := by
  rw [afterEscape, List.length_drop]
  have := (List.dropWhile_sublist (!isAlpha ·) (l := message)).length_le
  omega

/-- A message without its escape sequences, each of which runs from an ESC up
to the next letter, or to the end where none follows. -/
def stripEscapes : Bytes → Bytes
  | [] => []
  | c :: rest => if c = 27 then stripEscapes (afterEscape rest) else c :: stripEscapes rest
termination_by message => message.length
decreasing_by
  · have := afterEscape_length_le rest
    rw [List.length_cons]
    omega
  · exact Nat.lt_succ_self _

/-- Every ESC has a letter somewhere behind it. -/
def escapesClose : Bytes → Bool
  | [] => true
  | c :: rest => (c != 27 || rest.any isAlpha) && escapesClose rest

theorem afterEscape_cons {c : UInt8} {rest : Bytes} :
    afterEscape (c :: rest) = if isAlpha c then rest else afterEscape rest := by
  rw [afterEscape, List.dropWhile_cons]
  cases isAlpha c <;> rfl

theorem not_alpha_escape : isAlpha 27 = false := by decide

/-- The newline is written unless a sequence runs to the end; inside a
sequence that takes a letter further on as well. -/
theorem recordedRest_eq {message : Bytes} :
    recordedRest false message =
        stripEscapes message ++ (if escapesClose message then [10] else []) ∧
      recordedRest true message = stripEscapes (afterEscape message) ++
        (if message.any isAlpha && escapesClose message then [10] else []) := by
  induction message with
  | nil =>
      constructor
      · rw [recordedRest, stripEscapes]
        rfl
      · rw [recordedRest, afterEscape, List.dropWhile_nil, List.drop_nil, stripEscapes]
        rfl
  | cons c rest ih =>
      obtain ⟨hout, hin⟩ := ih
      constructor
      · rw [recordedRest, stripEscapes, escapesClose]
        by_cases hesc : c = 27
        · rw [if_pos hesc, if_pos hesc, hin]
          simp [hesc]
        · rw [if_neg hesc, if_neg hesc, hout]
          simp [hesc]
      · rw [recordedRest, afterEscape_cons, List.any_cons, escapesClose]
        cases hc : isAlpha c with
        | true =>
            have hesc : c ≠ 27 := by
              intro h
              rw [h, not_alpha_escape] at hc
              cases hc
            simpa [hesc] using hout
        | false =>
            have hclose : ((c != 27 || rest.any isAlpha) && escapesClose rest &&
                rest.any isAlpha) = (rest.any isAlpha && escapesClose rest) := by
              cases rest.any isAlpha <;> simp
            rw [Bool.not_false, hin, Bool.false_or, Bool.and_comm (rest.any isAlpha) (_ && _),
              hclose]
            rfl

end LogRingBuffer

/-- A message that passes the gate is written as its plain text and a closing
newline exactly when the ring is allocated and no escape sequence runs to the
end of the part looked at. -/
theorem line_terminated_iff {level : UInt8} {message : Bytes} {r : LogRingBuffer}
    (hgate : level ≤ r.levelGate) (hmsg : message ≠ []) :
    r.append level message =
        r.putAll (LogRingBuffer.stripEscapes (message.take (r.capacity / 4)) ++ [10]) ↔
      0 < r.capacity ∧ LogRingBuffer.escapesClose (message.take (r.capacity / 4)) = true := by
  have hlength (h : r.append level message =
      r.putAll (LogRingBuffer.stripEscapes (message.take (r.capacity / 4)) ++ [10])) :
      UInt64.ofNat (r.recorded level message).length = UInt64.ofNat
        (LogRingBuffer.stripEscapes (message.take (r.capacity / 4)) ++ [10]).length := by
    have hoff := congrArg LogRingBuffer.writeOff h
    rwa [LogRingBuffer.append_eq, LogRingBuffer.writeOff_putAll, LogRingBuffer.writeOff_putAll,
      UInt64.add_right_inj] at hoff
  cases hb : r.buffer with
  | none =>
      have hcap : r.capacity = 0 := by rw [LogRingBuffer.capacity, hb]; rfl
      have hrec : r.recorded level message = [] := by rw [LogRingBuffer.recorded, hb]; rfl
      constructor
      · intro h
        have hlen := hlength h
        rw [hrec, hcap, Nat.zero_div, List.take_zero, LogRingBuffer.stripEscapes] at hlen
        exact absurd hlen (by decide)
      · rintro ⟨hroom, -⟩
        omega
  | some cells =>
      have hcap : 0 < r.capacity := by
        rw [LogRingBuffer.capacity, hb]
        exact r.allocated cells hb
      have hrec : r.recorded level message =
          LogRingBuffer.recordedRest false (message.take (r.capacity / 4)) := by
        rw [LogRingBuffer.recorded, LogRingBuffer.clipped, if_neg]
        simp [hb, hgate, hmsg]
      rw [LogRingBuffer.recordedRest_eq.1] at hrec
      constructor
      · intro h
        have hlen := hlength h
        by_contra hopen
        rw [hrec, if_neg fun hclose => hopen ⟨hcap, hclose⟩, List.length_append,
          List.length_append] at hlen
        simp at hlen
      · rintro ⟨-, hclose⟩
        rw [LogRingBuffer.append_eq, hrec, if_pos hclose]

/-- A coloured message that fits is one line: the sequences at both ends close. -/
theorem line_terminated_coloured :
    (LogOp.ready 64 5).append 3 (27 :: text "[32mok" ++ 27 :: text "[0m") =
      (LogOp.ready 64 5).putAll (LogRingBuffer.stripEscapes
        ((27 :: text "[32mok" ++ 27 :: text "[0m").take (64 / 4)) ++ [10]) :=
  (@line_terminated_iff 3 (27 :: text "[32mok" ++ 27 :: text "[0m")
    (LogOp.ready 64 5) (by decide) (by decide)).mpr (by decide)

/-- Cut off inside the sequence that resets the colour, a message loses its
newline, and the next one continues its line in LastLog. -/
theorem lines_joined :
    (LogOp.ready 24 5).append 3 (text "hot" ++ 27 :: text "[0m") ≠
        (LogOp.ready 24 5).putAll (LogRingBuffer.stripEscapes
          ((text "hot" ++ 27 :: text "[0m").take (24 / 4)) ++ [10]) ∧
      ((LogOp.runAll [.append 3 (text "hot" ++ 27 :: text "[0m"), .append 3 (text "cold")]
        (LogOp.ready 24 5)).readIncremental 100).1 = text "hotcold\n" := by
  constructor
  · intro h
    have hoff := congrArg LogRingBuffer.writeOff h
    rw [LogRingBuffer.writeOff_putAll, List.length_append] at hoff
    have hcode : ((LogOp.ready 24 5).append 3 (text "hot" ++ 27 :: text "[0m")).writeOff = 3 := by
      decide
    have hplain : LogRingBuffer.stripEscapes ((text "hot" ++ 27 :: text "[0m").take (24 / 4)) =
        text "hot" := by
      have hafter : LogRingBuffer.afterEscape [91, 48] = [] := by decide
      simp [LogRingBuffer.stripEscapes, hafter, text]
    rw [hcode, hplain] at hoff
    exact absurd hoff (by decide)
  · decide

end Gbb
