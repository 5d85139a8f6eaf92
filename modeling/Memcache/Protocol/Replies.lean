import Memcache.Protocol.Command

/-!
# Healthy writes and the counters' replies

On a transport that takes every write, `write`, `write_all` and `write!` put their bytes out
whole. The counters drop the result of `read_line` and parse whatever it left in the string,
so a reply cut by the end of the input or by a failed read gives the digits read so far
(`counter_partial_line`).
-/

namespace Memcache

namespace Session

variable {s : Stream}

theorem write_healthy (buf : Bytes) (hw : s.writes = []) :
    write buf s = .ok buf.length { s with output := s.output ++ buf } := by
  simp [write, Stream.write, hw]

theorem writeAll_healthy (buf : Bytes) (hw : s.writes = []) :
    writeAll buf s = .ok () { s with output := s.output ++ buf } := by
  simp [writeAll, Stream.writeAll, hw]

theorem writeFmt_healthy (pieces : List Bytes) (hw : s.writes = []) :
    writeFmt pieces s = .ok () { s with output := s.output ++ pieces.flatten } := by
  induction pieces generalizing s with
  | nil => simp [writeFmt, pure, EStateM.pure]
  | cons p pieces ih =>
    have rest := @ih { s with output := s.output ++ p } hw
    simp only [writeFmt, List.forM_cons', bind, EStateM.bind, writeAll_healthy p hw] at rest ⊢
    rw [rest]
    simp

end Session

/-! ## The counters -/

namespace Ascii

variable (fromLine : Bytes → MemcacheError)

theorem isMemcacheError_cons {b : UInt8} (rest : Bytes) (h : b ≠ 69 ∧ b ≠ 67 ∧ b ≠ 83) :
    isMemcacheError (b :: rest) = false := by
  have e : ascii "ERROR\r\n" = 69 :: ascii "RROR\r\n" := rfl
  have c : ascii "CLIENT_ERROR" = 67 :: ascii "LIENT_ERROR" := rfl
  have s : ascii "SERVER_ERROR" = 83 :: ascii "ERVER_ERROR" := rfl
  simp only [isMemcacheError, startsWith, e, c, s, List.cons_beq_cons, List.isPrefixOf_cons₂,
    beq_false_of_ne (Ne.symm h.1), beq_false_of_ne (Ne.symm h.2.1), beq_false_of_ne (Ne.symm h.2.2),
    beq_false_of_ne h.1, Bool.false_and, Bool.or_false]

theorem isMemcacheError_of_parse {bound v : Nat} {line : Bytes} (h : parseUnsigned bound line = some v) :
    isMemcacheError line = false := by
  obtain ⟨b, rest, rfl⟩ := List.exists_cons_of_ne_nil (parseUnsigned_ne_nil h)
  apply isMemcacheError_cons
  have hb := parseUnsigned_mem h b (List.mem_cons_self _ _)
  refine ⟨?_, ?_, ?_⟩ <;> rintro rfl <;> revert hb <;> decide

/-- `read_line`'s failure is lost: a counter whose reply stops before its `\r\n`, at end of
file or at failed reads, returns the number read so far. -/
theorem counter_partial_line (command key : Bytes) (amount : UInt64) (hkey : key.length ≤ 250)
    {digits : Bytes} {v : UInt64} (hv : parseU64 digits = some v) (stop : List IoError) :
    counter fromLine command key amount { input := bytesIn digits ++ stop.map .fault } =
      .ok v { input := (readLineChunks (stop.map .fault)).2.2,
              output := [command, key, [space], decimal amount.toNat, crlf].flatten } := by
  obtain ⟨n, hn, rfl⟩ := Option.map_eq_some'.1 hv
  have hascii (b : UInt8) (hb : b ∈ digits) : b.toNat < 0x80 := by
    rcases parseUnsigned_mem hn b hb with h | rfl
    · simp only [isDigit, Bool.and_eq_true, decide_eq_true_eq] at h
      omega
    · decide
  have hnl : 10 ∉ digits := fun h10 => absurd (parseUnsigned_mem hn 10 h10) (by decide)
  have hread := readLineChunks_append digits (stop.map .fault) hnl
  rw [(readLineChunks_faults stop).1, List.append_nil] at hread
  have hvalid : validUtf8 digits := validUtf8_of_ascii hascii
  have hfound : digits ≠ ascii "NOT_FOUND\r\n" := by
    rintro rfl; exact hnl (by decide)
  simp [counter, counterReply, Nat.not_lt.2 hkey, Session.writeFmt_healthy, Session.readLine, hread,
    Session.appendToString_of_valid hvalid, isMemcacheError_of_parse hn, hfound, trimEndMatches_crlf_of_not_mem hnl, hv,
    bind, EStateM.bind, pure, EStateM.pure]

theorem increment_cut_reply :
    increment fromLine (ascii "counter") 123 { input := bytesIn (ascii "44") } =
      .ok 44 { input := [], output := ascii "incr counter 123\r\n" } ∧
    increment fromLine (ascii "counter") 123
        { input := bytesIn (ascii "44") ++ [.fault ⟨.timedOut⟩] } =
      .ok 44 { input := [], output := ascii "incr counter 123\r\n" } :=
  ⟨counter_partial_line fromLine _ _ 123 (by decide) (by decide : parseU64 (ascii "44") = some 44) [],
    counter_partial_line fromLine _ _ 123 (by decide) (by decide : parseU64 (ascii "44") = some 44) [⟨.timedOut⟩]⟩

end Ascii

end Memcache
