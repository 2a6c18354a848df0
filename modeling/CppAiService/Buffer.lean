import CppAiService.Bytes

namespace CppAiService

open Bytes

def overwrite (v : Bytes) (i : ℕ) (data : Bytes) : Bytes :=
  v.take i ++ data ++ v.drop (i + data.length)

def resize (v : Bytes) (n : ℕ) : Bytes := v.take n ++ List.replicate (n - v.length) 0

section Vector

variable {v data : Bytes} {i j n : ℕ}

theorem length_overwrite (h : i + data.length ≤ v.length) :
    (overwrite v i data).length = v.length := by
  simp only [overwrite, List.length_append, List.length_take, List.length_drop]
  omega

theorem length_resize (v : Bytes) (n : ℕ) : (resize v n).length = n := by
  simp only [resize, List.length_append, List.length_take, List.length_replicate]
  omega

theorem take_overwrite_end (h : i ≤ v.length) :
    (overwrite v i data).take (i + data.length) = v.take i ++ data := by
  apply List.take_left'
  rw [List.length_append, List.length_take_of_le h]

theorem take_resize (hn : v.length ≤ n) (hj : j ≤ v.length) : (resize v n).take j = v.take j := by
  rw [resize, List.take_of_length_le hn]
  exact List.take_append_of_le_length hj

end Vector

def kCheapPrepend : ℕ := 8

def kInitialSize : ℕ := 1024

structure Buffer where
  buffer_ : Bytes
  readerIndex_ : ℕ
  writerIndex_ : ℕ
  prepend_le : kCheapPrepend ≤ readerIndex_
  reader_le : readerIndex_ ≤ writerIndex_
  writer_le : writerIndex_ ≤ buffer_.length

namespace Buffer

def create (initialSize : ℕ) : Buffer where
  buffer_ := List.replicate (kCheapPrepend + initialSize) 0
  readerIndex_ := kCheapPrepend
  writerIndex_ := kCheapPrepend
  prepend_le := le_rfl
  reader_le := le_rfl
  writer_le := by rw [List.length_replicate]; omega

variable (b : Buffer)

def readableBytes : ℕ := b.writerIndex_ - b.readerIndex_

def writableBytes : ℕ := b.buffer_.length - b.writerIndex_

def prependableBytes : ℕ := b.readerIndex_

def peek (len : ℕ) : Bytes := (b.buffer_.drop b.readerIndex_).take len

def readable : Bytes := b.peek b.readableBytes

theorem length_readable : b.readable.length = b.readableBytes := by
  have h := b.reader_le
  have h' := b.writer_le
  simp only [readable, peek, readableBytes, List.length_take, List.length_drop]
  omega

theorem readableBytes_eq_zero_iff : b.readableBytes = 0 ↔ b.readable = [] := by
  rw [← length_readable, List.length_eq_zero_iff]

def retrieveAll : Buffer where
  buffer_ := b.buffer_
  readerIndex_ := kCheapPrepend
  writerIndex_ := kCheapPrepend
  prepend_le := le_rfl
  reader_le := le_rfl
  writer_le := (b.prepend_le.trans b.reader_le).trans b.writer_le

def retrieve (len : ℕ) : Buffer :=
  if h : len < b.readableBytes then
    { buffer_ := b.buffer_
      readerIndex_ := b.readerIndex_ + len
      writerIndex_ := b.writerIndex_
      prepend_le := Nat.le_add_right_of_le b.prepend_le
      reader_le := by rw [readableBytes] at h; omega
      writer_le := b.writer_le }
  else b.retrieveAll

def retrieveAsString (len : ℕ) : Bytes × Buffer := (b.peek len, b.retrieve len)

def retrieveAllAsString : Bytes × Buffer := b.retrieveAsString b.readableBytes

def makeSpace (len : ℕ) : Buffer :=
  if b.writableBytes + b.prependableBytes < len + kCheapPrepend then
    { buffer_ := resize b.buffer_ (b.writerIndex_ + len)
      readerIndex_ := b.readerIndex_
      writerIndex_ := b.writerIndex_
      prepend_le := b.prepend_le
      reader_le := b.reader_le
      writer_le := by rw [length_resize]; omega }
  else
    { buffer_ := overwrite b.buffer_ kCheapPrepend b.readable
      readerIndex_ := kCheapPrepend
      writerIndex_ := kCheapPrepend + b.readableBytes
      prepend_le := le_rfl
      reader_le := Nat.le_add_right ..
      writer_le := by
        have h := b.prepend_le
        have h' := b.reader_le
        have h'' := b.writer_le
        rw [length_overwrite (by rw [length_readable, readableBytes]; omega), readableBytes]
        omega }

def ensureWritableBytes (len : ℕ) : Buffer :=
  if b.writableBytes < len then b.makeSpace len else b

variable {b}

theorem peek_eq_take {len : ℕ} (h : len ≤ b.readableBytes) : b.peek len = b.readable.take len := by
  rw [readable, peek, peek, List.take_take, Nat.min_eq_left h]

theorem readable_eq (b : Buffer) : b.readable = (b.buffer_.take b.writerIndex_).drop b.readerIndex_ :=
  List.drop_take.symm

theorem writableBytes_ensure (b : Buffer) (len : ℕ) :
    len ≤ (b.ensureWritableBytes len).writableBytes := by
  rw [ensureWritableBytes]
  split
  · next hfull =>
    rw [makeSpace]
    split
    · change len ≤ (resize b.buffer_ (b.writerIndex_ + len)).length - b.writerIndex_
      rw [length_resize, Nat.add_sub_cancel_left]
    · next hroom =>
      have h := b.prepend_le
      have h' := b.reader_le
      have h'' := b.writer_le
      change len ≤ (overwrite b.buffer_ kCheapPrepend b.readable).length -
        (kCheapPrepend + b.readableBytes)
      rw [prependableBytes, writableBytes] at hroom
      rw [length_overwrite (by rw [length_readable, readableBytes]; omega), readableBytes]
      omega
  · next h => exact Nat.le_of_not_lt h

def fill (b : Buffer) (data : Bytes) (h : data.length ≤ b.writableBytes) : Buffer where
  buffer_ := overwrite b.buffer_ b.writerIndex_ data
  readerIndex_ := b.readerIndex_
  writerIndex_ := b.writerIndex_ + data.length
  prepend_le := b.prepend_le
  reader_le := Nat.le_add_right_of_le b.reader_le
  writer_le := by
    have h' := b.writer_le
    rw [writableBytes] at h
    rw [length_overwrite (by omega)]
    omega

def append (b : Buffer) (data : Bytes) : Buffer :=
  (b.ensureWritableBytes data.length).fill data (b.writableBytes_ensure data.length)

/-- The effect of a `readv` that brought these bytes: those that do not fit went to the
space on the stack. -/
def readFd (b : Buffer) (data : Bytes) : Buffer :=
  if h : data.length ≤ b.writableBytes then b.fill data h
  else
    (b.fill (data.take b.writableBytes) (List.length_take_le ..)).append
      (data.drop b.writableBytes)

@[simp] theorem readable_create (initialSize : ℕ) : (create initialSize).readable = [] := by
  simp [readable, readableBytes, peek, create]

@[simp] theorem readable_retrieveAll (b : Buffer) : b.retrieveAll.readable = [] := by
  simp [readable, readableBytes, peek, retrieveAll]

@[simp] theorem readable_retrieve (b : Buffer) (len : ℕ) :
    (b.retrieve len).readable = b.readable.drop len := by
  rw [retrieve]
  split
  · change (b.buffer_.drop (b.readerIndex_ + len)).take (b.writerIndex_ - (b.readerIndex_ + len)) = _
    rw [readable, peek, readableBytes, List.drop_take, List.drop_drop, Nat.sub_sub]
  · next h =>
    rw [readable_retrieveAll, List.drop_of_length_le]
    rw [length_readable]
    exact Nat.le_of_not_lt h

theorem retrieveAllAsString_eq (b : Buffer) :
    b.retrieveAllAsString = (b.readable, b.retrieveAll) := by
  have h : b.retrieve b.readableBytes = b.retrieveAll := dif_neg (Nat.lt_irrefl _)
  rw [retrieveAllAsString, retrieveAsString, h]
  rfl

@[simp] theorem readable_ensureWritableBytes (b : Buffer) (len : ℕ) :
    (b.ensureWritableBytes len).readable = b.readable := by
  rw [ensureWritableBytes]
  split
  · next hfull =>
    rw [makeSpace]
    split
    · rw [writableBytes] at hfull
      have h := b.writer_le
      rw [readable_eq, readable_eq]
      change ((resize b.buffer_ (b.writerIndex_ + len)).take b.writerIndex_).drop _ = _
      rw [take_resize (by omega) h]
    · have h : kCheapPrepend ≤ b.buffer_.length :=
        (b.prepend_le.trans b.reader_le).trans b.writer_le
      conv_lhs => rw [readable_eq]
      change ((overwrite b.buffer_ kCheapPrepend b.readable).take
        (kCheapPrepend + b.readableBytes)).drop kCheapPrepend = _
      rw [← length_readable, take_overwrite_end h]
      exact List.drop_left' (List.length_take_of_le h)
  · rfl

@[simp] theorem readable_fill (b : Buffer) (data : Bytes) (h : data.length ≤ b.writableBytes) :
    (b.fill data h).readable = b.readable ++ data := by
  have hle : b.readerIndex_ ≤ (b.buffer_.take b.writerIndex_).length := by
    rw [List.length_take_of_le b.writer_le]
    exact b.reader_le
  rw [readable_eq, readable_eq]
  change ((overwrite b.buffer_ b.writerIndex_ data).take (b.writerIndex_ + data.length)).drop
    b.readerIndex_ = _
  rw [take_overwrite_end b.writer_le, List.drop_append_of_le_length hle]

@[simp] theorem readable_append (b : Buffer) (data : Bytes) :
    (b.append data).readable = b.readable ++ data := by
  rw [append, readable_fill, readable_ensureWritableBytes]

@[simp] theorem readable_readFd (b : Buffer) (data : Bytes) :
    (b.readFd data).readable = b.readable ++ data := by
  rw [readFd]
  split
  · exact readable_fill ..
  · rw [readable_append, readable_fill, List.append_assoc, List.take_append_drop]

end Buffer

end CppAiService
