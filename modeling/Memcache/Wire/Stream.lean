import Memcache.Wire.Utf8

/-!
# The transport under a protocol session

`AsciiProtocol` reads through a `BufReader` and writes to the stream behind it. What the peer
delivers is a list of chunks, each a byte or a failed `read` call; a failure is reported once,
so a later read may go on past a timeout. The `write` calls follow a list of outcomes, and
once it runs out every call accepts its whole buffer.
-/

namespace Memcache

inductive ErrorKind
  | interrupted
  | timedOut
  | unexpectedEof
  | writeZero
  | invalidData
  | invalidInput
  | other
  deriving DecidableEq, Repr

structure IoError where
  kind : ErrorKind
  deriving DecidableEq, Repr

inductive Chunk
  | byte (b : UInt8)
  | fault (e : IoError)
  deriving DecidableEq, Repr

inductive WriteResult
  | accept (n : Nat)
  | fail (e : IoError)
  deriving DecidableEq, Repr

structure Stream where
  input : List Chunk
  output : Bytes := []
  writes : List WriteResult := []
  deriving DecidableEq, Repr

def bytesIn (bs : Bytes) : List Chunk := bs.map .byte

@[simp] theorem bytesIn_nil : bytesIn [] = [] := rfl

@[simp] theorem bytesIn_cons (b : UInt8) (bs : Bytes) : bytesIn (b :: bs) = .byte b :: bytesIn bs := rfl

@[simp] theorem bytesIn_append (xs ys : Bytes) : bytesIn (xs ++ ys) = bytesIn xs ++ bytesIn ys :=
  List.map_append _ _ _

/-- `Write::write`: one call, which may accept only a prefix of `buf`. -/
def Stream.write (buf : Bytes) (s : Stream) : Except IoError Nat × Stream :=
  match s.writes with
  | [] => (.ok buf.length, { s with output := s.output ++ buf })
  | .accept n :: ws => (.ok (min n buf.length), { s with output := s.output ++ buf.take n, writes := ws })
  | .fail e :: ws => (.error e, { s with writes := ws })

/-- The calls of `Write::write_all`: the bytes accepted, how it ends, and the outcomes left. -/
def writeAllCalls : List WriteResult → Bytes → Bytes × Except IoError Unit × List WriteResult
  | ws, [] => ([], .ok (), ws)
  | [], buf => (buf, .ok (), [])
  | .accept 0 :: ws, _ :: _ => ([], .error ⟨.writeZero⟩, ws)
  | .accept (n + 1) :: ws, buf =>
      let rest := writeAllCalls ws (buf.drop (n + 1))
      (buf.take (n + 1) ++ rest.1, rest.2)
  | .fail e :: ws, buf =>
      if e.kind = .interrupted then writeAllCalls ws buf else ([], .error e, ws)

def Stream.writeAll (buf : Bytes) (s : Stream) : Except IoError Unit × Stream :=
  let calls := writeAllCalls s.writes buf
  (calls.2.1, { s with output := s.output ++ calls.1, writes := calls.2.2 })

/-- `BufRead::read_line` into an empty string: the bytes up to and including the first newline,
the error that stopped it if any, and the input left. The bytes read before an error stay in
the string. -/
def readLineChunks : List Chunk → Bytes × Option IoError × List Chunk
  | [] => ([], none, [])
  | .byte b :: rest =>
      if b = 10 then ([b], none, rest)
      else
        let line := readLineChunks rest
        (b :: line.1, line.2)
  | .fault e :: rest => if e.kind = .interrupted then readLineChunks rest else ([], some e, rest)

/-- `Read::read_exact`: exactly `n` bytes, or the error of a failed read, or `UnexpectedEof`. -/
def readExactChunks : Nat → List Chunk → Except IoError Bytes × List Chunk
  | 0, input => (.ok [], input)
  | _ + 1, [] => (.error ⟨.unexpectedEof⟩, [])
  | n + 1, .byte b :: rest =>
      let more := readExactChunks n rest
      (more.1.map (b :: ·), more.2)
  | n + 1, .fault e :: rest =>
      if e.kind = .interrupted then readExactChunks (n + 1) rest else (.error e, rest)

/-! ## Reading well-formed input -/

@[simp] theorem writeAllCalls_healthy (buf : Bytes) : writeAllCalls [] buf = (buf, .ok (), []) := by
  cases buf <;> rfl

theorem readLineChunks_append (line : Bytes) (rest : List Chunk) (h : 10 ∉ line) :
    readLineChunks (bytesIn line ++ rest) =
      (line ++ (readLineChunks rest).1, (readLineChunks rest).2) := by
  induction line with
  | nil => rfl
  | cons b line ih =>
    simp only [List.mem_cons, not_or] at h
    rw [bytesIn_cons, List.cons_append, readLineChunks, if_neg (Ne.symm h.1), ih h.2]
    rfl

theorem readLineChunks_line (line : Bytes) (rest : List Chunk) (h : 10 ∉ line) :
    readLineChunks (bytesIn (line ++ [10]) ++ rest) = (line ++ [10], none, rest) := by
  rw [bytesIn_append, List.append_assoc, readLineChunks_append line _ h]
  rfl

theorem readLineChunks_faults (es : List IoError) :
    (readLineChunks (es.map .fault)).1 = [] ∧ (readLineChunks (es.map .fault)).2.2.length ≤ es.length := by
  induction es with
  | nil => simp [readLineChunks]
  | cons e es ih =>
    simp only [List.map_cons, readLineChunks]
    split
    · exact ⟨ih.1, by simp; omega⟩
    · simp

theorem readExactChunks_bytes (bs : Bytes) (rest : List Chunk) :
    readExactChunks bs.length (bytesIn bs ++ rest) = (.ok bs, rest) := by
  induction bs with
  | nil => simp [readExactChunks]
  | cons b bs ih => rw [List.length_cons, bytesIn_cons, List.cons_append, readExactChunks, ih]; rfl

theorem readLineChunks_length_le (input : List Chunk) :
    (readLineChunks input).2.2.length ≤ input.length := by
  induction input with
  | nil => simp [readLineChunks]
  | cons c input ih =>
    cases c with
    | byte b => simp only [readLineChunks]; split <;> simp; omega
    | fault e => simp only [readLineChunks]; split <;> simp; omega

theorem readLineChunks_consumes {input : List Chunk} (h : (readLineChunks input).1 ≠ []) :
    (readLineChunks input).2.2.length < input.length := by
  induction input with
  | nil => simp [readLineChunks] at h
  | cons c input ih =>
    cases c with
    | byte b =>
      have := readLineChunks_length_le input
      simp only [readLineChunks]
      split <;> simp; omega
    | fault e =>
      simp only [readLineChunks] at h ⊢
      split
      · have := ih (by simpa [*] using h); simp; omega
      · simp

theorem readExactChunks_length_le (n : Nat) (input : List Chunk) :
    (readExactChunks n input).2.length ≤ input.length := by
  induction input generalizing n with
  | nil => cases n <;> simp [readExactChunks]
  | cons c input ih =>
    cases n with
    | zero => simp [readExactChunks]
    | succ n =>
      cases c with
      | byte b => have := ih n; simp [readExactChunks]; omega
      | fault e =>
        simp only [readExactChunks]
        split
        · have := ih (n + 1); simp; omega
        · simp

end Memcache
