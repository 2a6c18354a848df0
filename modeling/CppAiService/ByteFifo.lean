import CppAiService.Buffer
import CppAiService.Foundation.Log

namespace CppAiService.ByteFifo

open Bytes Foundation.Run Foundation.Log

/-- `std::copy` from outside into a vector, byte by byte; `none` once it leaves the vector. -/
def copyInto (v : Bytes) (dest : ℕ) : Bytes → Option Bytes
  | [] => some v
  | byte :: data => if dest < v.length then copyInto (v.set dest byte) (dest + 1) data else none

def copyWithin (v : Bytes) (first dest : ℕ) : ℕ → Option Bytes
  | 0 => some v
  | n + 1 =>
    match v[first]? with
    | none => none
    | some byte =>
      if dest < v.length then copyWithin (v.set dest byte) (first + 1) (dest + 1) n else none

def copyOut (v : Bytes) (first : ℕ) : ℕ → Option Bytes
  | 0 => some []
  | n + 1 => v[first]?.bind fun byte ↦ (copyOut v (first + 1) n).map (byte :: ·)

section Copy

variable {v data : Bytes} {dest first n : ℕ} {byte : Byte}

theorem overwrite_nil (v : Bytes) (dest : ℕ) : overwrite v dest [] = v := by
  rw [overwrite, List.append_nil, List.length_nil, Nat.add_zero, List.take_append_drop]

theorem overwrite_set (h : dest < v.length) (data : Bytes) :
    overwrite (v.set dest byte) (dest + 1) data = overwrite v dest (byte :: data) := by
  have htake : (v.set dest byte).take (dest + 1) = v.take dest ++ [byte] := by
    rw [List.set_eq_take_append_cons_drop, if_pos h, List.append_cons]
    apply List.take_left'
    rw [List.length_append, List.length_take_of_le h.le, List.length_singleton]
  have hdrop : (v.set dest byte).drop (dest + 1 + data.length) =
      v.drop (dest + (byte :: data).length) := by
    rw [List.drop_set_of_lt (by omega), List.length_cons]
    congr 1
    omega
  rw [overwrite, overwrite, htake, hdrop, List.append_assoc (v.take dest), List.singleton_append]

theorem copyInto_eq (h : dest + data.length ≤ v.length) :
    copyInto v dest data = some (overwrite v dest data) := by
  induction data generalizing v dest with
  | nil => rw [copyInto, overwrite_nil]
  | cons byte data ih =>
    rw [List.length_cons] at h
    have hdest : dest < v.length := by omega
    rw [copyInto, if_pos hdest, ih (by rw [List.length_set]; omega), overwrite_set hdest]

/-- A copy towards the front never reads a byte that it has already written over. -/
theorem copyWithin_eq (hdest : dest ≤ first) (h : first + n ≤ v.length) :
    copyWithin v first dest n = some (overwrite v dest ((v.drop first).take n)) := by
  induction n generalizing v first dest with
  | zero => rw [copyWithin, List.take_zero, overwrite_nil]
  | succ n ih =>
    have hfirst : first < v.length := by omega
    have hlt : dest < v.length := by omega
    rw [copyWithin, List.getElem?_eq_getElem hfirst]
    dsimp only
    rw [if_pos hlt, ih (by omega) (by rw [List.length_set]; omega), overwrite_set hlt,
      List.drop_set_of_lt (by omega), List.drop_eq_getElem_cons hfirst, List.take_succ_cons]

theorem copyOut_eq (h : first + n ≤ v.length) :
    copyOut v first n = some ((v.drop first).take n) := by
  induction n generalizing first with
  | zero => rw [copyOut, List.take_zero]
  | succ n ih =>
    have hfirst : first < v.length := by omega
    rw [copyOut, List.getElem?_eq_getElem hfirst, Option.bind_some, ih (by omega),
      Option.map_some, List.drop_eq_getElem_cons hfirst, List.take_succ_cons]

end Copy

/-- The members of the class as they are, with nothing known about the indices. -/
structure RawBuffer where
  buffer_ : Bytes
  readerIndex_ : ℕ
  writerIndex_ : ℕ

namespace RawBuffer

def create (initialSize : ℕ) : RawBuffer :=
  ⟨List.replicate (kCheapPrepend + initialSize) 0, kCheapPrepend, kCheapPrepend⟩

variable (b : RawBuffer)

def readableBytes : ℕ := b.writerIndex_ - b.readerIndex_

def writableBytes : ℕ := b.buffer_.length - b.writerIndex_

def prependableBytes : ℕ := b.readerIndex_

def retrieveAll : RawBuffer :=
  { b with readerIndex_ := kCheapPrepend, writerIndex_ := kCheapPrepend }

def retrieve (len : ℕ) : RawBuffer :=
  if len < b.readableBytes then { b with readerIndex_ := b.readerIndex_ + len }
  else b.retrieveAll

def retrieveAsString (len : ℕ) : Option (Bytes × RawBuffer) :=
  (copyOut b.buffer_ b.readerIndex_ len).map fun result ↦ (result, b.retrieve len)

def makeSpace (len : ℕ) : Option RawBuffer :=
  if b.writableBytes + b.prependableBytes < len + kCheapPrepend then
    some { b with buffer_ := resize b.buffer_ (b.writerIndex_ + len) }
  else
    let readable := b.readableBytes
    (copyWithin b.buffer_ b.readerIndex_ kCheapPrepend readable).map fun buffer ↦
      ⟨buffer, kCheapPrepend, kCheapPrepend + readable⟩

def ensureWritableBytes (len : ℕ) : Option RawBuffer :=
  if b.writableBytes < len then b.makeSpace len else some b

def append (data : Bytes) : Option RawBuffer :=
  (b.ensureWritableBytes data.length).bind fun b ↦
    (copyInto b.buffer_ b.writerIndex_ data).map fun buffer ↦
      { b with buffer_ := buffer, writerIndex_ := b.writerIndex_ + data.length }

def sizeofExtrabuf : ℕ := 65536

def offered : ℕ :=
  if b.writableBytes < sizeofExtrabuf then b.writableBytes + sizeofExtrabuf else b.writableBytes

/-- The bytes that `readv` brings go to the end of the vector first, the rest of them to the
stack; `none` is a failing call. -/
def readFd : Option Bytes → Option RawBuffer
  | none => some b
  | some data =>
    let writable := b.writableBytes
    (copyInto b.buffer_ b.writerIndex_ (data.take writable)).bind fun buffer ↦
      if data.length ≤ writable then
        some { b with buffer_ := buffer, writerIndex_ := b.writerIndex_ + data.length }
      else
        append { b with buffer_ := buffer, writerIndex_ := buffer.length } (data.drop writable)

end RawBuffer

section Refinement

variable (b : Buffer)

def raw : RawBuffer := ⟨b.buffer_, b.readerIndex_, b.writerIndex_⟩

theorem raw_retrieve (len : ℕ) : (raw b).retrieve len = raw (b.retrieve len) := by
  unfold RawBuffer.retrieve Buffer.retrieve
  by_cases h : len < b.readableBytes
  · rw [dif_pos h]
    exact if_pos h
  · rw [dif_neg h]
    exact if_neg h

theorem raw_retrieveAsString {len : ℕ} (h : len ≤ b.readableBytes) :
    (raw b).retrieveAsString len = some (b.peek len, raw (b.retrieve len)) := by
  have hreader := b.reader_le
  have hwriter := b.writer_le
  rw [Buffer.readableBytes] at h
  rw [RawBuffer.retrieveAsString, raw_retrieve]
  change (copyOut b.buffer_ b.readerIndex_ len).map _ = _
  rw [copyOut_eq (by omega)]
  rfl

theorem raw_makeSpace (len : ℕ) : (raw b).makeSpace len = some (raw (b.makeSpace len)) := by
  have hprepend := b.prepend_le
  have hreader := b.reader_le
  have hwriter := b.writer_le
  unfold RawBuffer.makeSpace Buffer.makeSpace
  by_cases h : b.writableBytes + b.prependableBytes < len + kCheapPrepend
  · rw [if_pos h]
    exact if_pos h
  · rw [if_neg h]
    refine (if_neg h).trans ?_
    change (copyWithin b.buffer_ b.readerIndex_ kCheapPrepend b.readableBytes).map _ = _
    rw [copyWithin_eq hprepend (by rw [Buffer.readableBytes]; omega)]
    rfl

theorem raw_ensureWritableBytes (len : ℕ) :
    (raw b).ensureWritableBytes len = some (raw (b.ensureWritableBytes len)) := by
  unfold RawBuffer.ensureWritableBytes Buffer.ensureWritableBytes
  by_cases h : b.writableBytes < len
  · rw [if_pos h, ← raw_makeSpace]
    exact if_pos h
  · rw [if_neg h]
    exact if_neg h

theorem raw_fill {data : Bytes} (h : data.length ≤ b.writableBytes) :
    (copyInto (raw b).buffer_ (raw b).writerIndex_ data).map (fun buffer ↦
      { raw b with buffer_ := buffer, writerIndex_ := (raw b).writerIndex_ + data.length }) =
      some (raw (b.fill data h)) := by
  have hwriter := b.writer_le
  have hfits : b.writerIndex_ + data.length ≤ b.buffer_.length := by
    rw [Buffer.writableBytes] at h
    omega
  change (copyInto b.buffer_ b.writerIndex_ data).map _ = _
  rw [copyInto_eq hfits]
  rfl

theorem raw_append (data : Bytes) : (raw b).append data = some (raw (b.append data)) := by
  rw [RawBuffer.append, raw_ensureWritableBytes, Option.bind_some, raw_fill]
  rfl

theorem raw_readFd (data : Bytes) : (raw b).readFd (some data) = some (raw (b.readFd data)) := by
  have hwriter := b.writer_le
  have hlength : (data.take b.writableBytes).length ≤ b.writableBytes := List.length_take_le ..
  have hfits : b.writerIndex_ + (data.take b.writableBytes).length ≤ b.buffer_.length := by
    rw [Buffer.writableBytes] at hlength ⊢
    omega
  unfold Buffer.readFd
  change (copyInto b.buffer_ b.writerIndex_ (data.take b.writableBytes)).bind _ = _
  rw [copyInto_eq hfits, Option.bind_some]
  by_cases h : data.length ≤ b.writableBytes
  · rw [dif_pos h]
    refine (if_pos h).trans ?_
    rw [List.take_of_length_le h]
    rfl
  · rw [dif_neg h, ← raw_append]
    refine (if_neg h).trans ?_
    have hfull : (overwrite b.buffer_ b.writerIndex_ (data.take b.writableBytes)).length =
        b.writerIndex_ + (data.take b.writableBytes).length := by
      rw [length_overwrite hfits, List.length_take, Buffer.writableBytes]
      rw [Buffer.writableBytes] at h
      omega
    rw [hfull]
    rfl

end Refinement

inductive Op
  | append (data : Bytes)
  | readFd (result : Option Bytes)
  | retrieve (len : ℕ)
  | retrieveAll
  | retrieveAsString (len : ℕ)

def apply (b : RawBuffer) : Op → Option (Option Bytes × RawBuffer)
  | .append data => (b.append data).map (none, ·)
  | .readFd result => (b.readFd result).map (none, ·)
  | .retrieve len => some (none, b.retrieve len)
  | .retrieveAll => some (none, b.retrieveAll)
  | .retrieveAsString len => (b.retrieveAsString len).map fun (result, b) ↦ (some result, b)

/-- No more is taken than is there, and the kernel keeps to the room it is given. -/
def Legal (b : RawBuffer) : Op → Prop
  | .append _ => True
  | .readFd none => True
  | .readFd (some data) => data.length ≤ b.offered
  | .retrieve len => len ≤ b.readableBytes
  | .retrieveAll => True
  | .retrieveAsString len => len ≤ b.readableBytes

instance (b : RawBuffer) (op : Op) : Decidable (Legal b op) :=
  match op with
  | .append _ => .isTrue trivial
  | .readFd none => .isTrue trivial
  | .readFd (some data) => inferInstanceAs (Decidable (data.length ≤ b.offered))
  | .retrieve len => inferInstanceAs (Decidable (len ≤ b.readableBytes))
  | .retrieveAll => .isTrue trivial
  | .retrieveAsString len => inferInstanceAs (Decidable (len ≤ b.readableBytes))

abbrev Fifo := Bytes × Bytes

def Fifo.take (q : Fifo) (len : ℕ) : Fifo := (q.1 ++ q.2.take len, q.2.drop len)

def Fifo.apply (q : Fifo) : Op → Option (Option Bytes × Fifo)
  | .append data => some (none, q.1, q.2 ++ data)
  | .readFd result => some (none, q.1, q.2 ++ result.getD [])
  | .retrieve len => some (none, q.take len)
  | .retrieveAll => some (none, q.take q.2.length)
  | .retrieveAsString len => some (some (q.2.take len), q.take len)

def entered : Op → Bytes
  | .append data => data
  | .readFd result => result.getD []
  | _ => []

theorem Fifo.apply_entered {q q' : Fifo} {op : Op} {result : Option Bytes}
    (h : q.apply op = some (result, q')) : q'.1 ++ q'.2 = q.1 ++ q.2 ++ entered op := by
  have htake (len : ℕ) : q.1 ++ q.2.take len ++ q.2.drop len = q.1 ++ q.2 ++ [] := by
    rw [List.append_assoc, List.take_append_drop, List.append_nil]
  cases op <;> cases h
  · exact (List.append_assoc ..).symm
  · exact (List.append_assoc ..).symm
  · exact htake _
  · exact htake _
  · exact htake _

/-- One operation does to the buffer what it does to the queue. -/
theorem apply_step (b : Buffer) (gone : Bytes) {op : Op} (h : Legal (raw b) op) :
    ∃ result b' gone', apply (raw b) op = some (result, raw b') ∧
      Fifo.apply (gone, b.readable) op = some (result, gone', b'.readable) := by
  cases op with
  | append data =>
    refine ⟨none, b.append data, gone, ?_, ?_⟩
    · rw [apply, raw_append, Option.map_some]
    · rw [Buffer.readable_append]
      rfl
  | readFd result =>
    cases result with
    | none =>
      refine ⟨none, b, gone, rfl, ?_⟩
      rw [Fifo.apply, Option.getD_none, List.append_nil]
    | some data =>
      refine ⟨none, b.readFd data, gone, ?_, ?_⟩
      · rw [apply, raw_readFd, Option.map_some]
      · rw [Buffer.readable_readFd]
        rfl
  | retrieve len =>
    refine ⟨none, b.retrieve len, gone ++ b.readable.take len, ?_, ?_⟩
    · rw [apply, raw_retrieve]
    · rw [Buffer.readable_retrieve]
      rfl
  | retrieveAll =>
    refine ⟨none, b.retrieveAll, gone ++ b.readable.take b.readable.length, rfl, ?_⟩
    rw [Buffer.readable_retrieveAll, Fifo.apply, Fifo.take, List.drop_length]
  | retrieveAsString len =>
    refine ⟨some (b.peek len), b.retrieve len, gone ++ b.readable.take len, ?_, ?_⟩
    · rw [apply, raw_retrieveAsString b h, Option.map_some]
    · rw [Buffer.readable_retrieve, Buffer.peek_eq_take h]
      rfl

theorem entered_run {ops : List Op} {q q' : Fifo} {log log' : List (Op × Option Bytes)}
    (h : run (logged Fifo.apply) (q, log) ops = some (q', log')) :
    q'.1 ++ q'.2 = q.1 ++ q.2 ++ ops.flatMap entered := by
  induction ops generalizing q log with
  | nil =>
    cases h
    exact (List.append_nil _).symm
  | cons op ops ih =>
    rw [run_cons, Option.bind_eq_some_iff] at h
    obtain ⟨u, hu, h⟩ := h
    obtain ⟨⟨result, v⟩, hv, rfl⟩ := Option.map_eq_some_iff.1 hu
    rw [ih h, Fifo.apply_entered hv, List.flatMap_cons, List.append_assoc]

theorem apply_run {ops : List Op} (b : Buffer) (gone : Bytes) {log : List (Op × Option Bytes)}
    (h : Along (logged apply) (fun s op ↦ Legal s.1 op) (raw b, log) ops) :
    ∃ b' gone' log', run (logged apply) (raw b, log) ops = some (raw b', log') ∧
      run (logged Fifo.apply) ((gone, b.readable), log) ops = some ((gone', b'.readable), log') := by
  induction ops generalizing b gone log with
  | nil => exact ⟨b, gone, log, rfl, rfl⟩
  | cons op ops ih =>
    obtain ⟨result, b₁, gone₁, hraw, hfifo⟩ := apply_step b gone h.1
    have hlogged : logged apply (raw b, log) op = some (raw b₁, log ++ [(op, result)]) := by
      rw [logged, hraw, Option.map_some]
    obtain ⟨b', gone', log', hrun, hfifos⟩ := ih b₁ gone₁ (h.2 _ hlogged)
    refine ⟨b', gone', log', ?_, ?_⟩
    · rw [run_cons, hlogged, Option.bind_some, hrun]
    · rw [run_cons, logged, hfifo, Option.map_some, Option.bind_some, hfifos]

/-- The buffer is a byte queue: no copy leaves the vector, the indices stay in order, and what
it returns and holds is what the queue returns and holds. -/
theorem buffer_refines_fifo (initialSize : ℕ) (ops : List Op)
    (h : Along (logged apply) (fun s op ↦ Legal s.1 op) (RawBuffer.create initialSize, []) ops) :
    ∃ b log gone readable,
      run (logged apply) (RawBuffer.create initialSize, []) ops = some (b, log) ∧
      kCheapPrepend ≤ b.readerIndex_ ∧ b.readerIndex_ ≤ b.writerIndex_ ∧
      b.writerIndex_ ≤ b.buffer_.length ∧
      readable = (b.buffer_.drop b.readerIndex_).take b.readableBytes ∧
      run (logged Fifo.apply) (([], []), []) ops = some ((gone, readable), log) ∧
      gone ++ readable = ops.flatMap entered := by
  obtain ⟨b, gone, log, hrun, hfifo⟩ := apply_run (Buffer.create initialSize) [] h
  rw [Buffer.readable_create] at hfifo
  exact ⟨raw b, log, gone, b.readable, hrun, b.prepend_le, b.reader_le, b.writer_le, rfl, hfifo,
    entered_run hfifo⟩

/-- A buffer of four bytes overflows to the stack, grows and gives some bytes back. -/
theorem small_buffer_refines_fifo :
    ∃ b log gone readable,
      run (logged apply) (RawBuffer.create 4, []) [.readFd (some (lit "GET / HTTP/1.1")),
        .retrieveAsString 4, .append (lit "\r\n"), .readFd none] = some (b, log) ∧
      gone = lit "GET " ∧ readable = lit "/ HTTP/1.1\r\n" ∧
      readable = (b.buffer_.drop b.readerIndex_).take b.readableBytes := by
  obtain ⟨b, log, gone, readable, hrun, -, -, -, hreadable, hfifo, -⟩ := buffer_refines_fifo 4
    [.readFd (some (lit "GET / HTTP/1.1")), .retrieveAsString 4, .append (lit "\r\n"), .readFd none]
    (by decide +kernel)
  obtain ⟨hstate, hlog⟩ := Prod.mk.inj (Option.some.inj hfifo)
  obtain ⟨hgone, hwaiting⟩ := Prod.mk.inj hstate
  exact ⟨b, log, gone, readable, hrun, hgone.symm, hwaiting.symm, hreadable⟩

end CppAiService.ByteFifo
