import Memcache.Protocol.Written

/-!
# Sessions on a faulty transport

What a session puts on the wire when the transport takes less than it is given. The methods
that send their request with `write!` (`write_all` on each piece) put out a prefix of the
request, and where the transport took less they fail before reading anything
(`Command.run_sends_prefix`). The methods that send it with one `write` call do not look at
how much was taken: on a short write they go on, a storage command writing its data block
after the cut header, and read a reply (`Command.run_short_write`).

On the reading side, an operation whose reply is one line takes exactly one line off the input,
whatever it holds (`Command.reply_one_line`), and an error line of the server fails every
operation with the error of that line (`Command.reply_error_line`). Exactly the counters and
`version` can return after a read that failed in the middle of their reply; every other
operation returns only when each failed read of its reply was retried (`Command.reply_strict_iff`).
-/

namespace Memcache

theorem writeAllCalls_prefix (ws : List WriteResult) (buf : Bytes) :
    (writeAllCalls ws buf).1 <+: buf ∧ ((writeAllCalls ws buf).2.1 = .ok () → (writeAllCalls ws buf).1 = buf) := by
  induction ws, buf using writeAllCalls.induct with
  | case1 ws => simp [writeAllCalls]
  | case2 buf h => simp [writeAllCalls]
  | case3 ws b bs => simp [writeAllCalls]
  | case4 n ws buf h ih =>
    simp only [writeAllCalls]
    have hbuf := List.take_append_drop (n + 1) buf
    refine ⟨?_, fun hok => ?_⟩
    · conv_rhs => rw [← hbuf]
      exact (List.prefix_append_right_inj _).2 ih.1
    · rw [ih.2 hok, hbuf]
  | case5 e ws buf h hi ih => rw [writeAllCalls, if_pos hi] <;> assumption
  | case6 e ws buf h hi => simp [writeAllCalls, hi]

namespace Session

def SendsUpTo {α : Type} (m : Session α) (w : Bytes) : Prop :=
  ∀ s, (final (m s)).input = s.input ∧ ∃ o, o <+: w ∧ (final (m s)).output = s.output ++ o ∧
    ∀ a s', m s = .ok a s' → o = w

/-- `m` puts out a prefix of `w`, and where it puts out less it fails without reading. -/
def SendsPrefix {α : Type} (m : Session α) (w : Bytes) : Prop :=
  ∀ s, ∃ o, o <+: w ∧ (final (m s)).output = s.output ++ o ∧
    (o ≠ w → (∃ e, m s = .error e (final (m s))) ∧ (final (m s)).input = s.input)

variable {α β : Type} {w w' : Bytes}

theorem sendsUpTo_pure (a : α) : SendsUpTo (pure a : Session α) [] :=
  fun _ => ⟨rfl, [], List.prefix_refl _, by simp [pure, EStateM.pure, final], fun _ _ _ => rfl⟩

theorem sendsUpTo_writeAll (buf : Bytes) : SendsUpTo (writeAll buf) buf := by
  intro s
  have h := writeAllCalls_prefix s.writes buf
  simp only [writeAll, Stream.writeAll]
  split <;> rename_i heq <;> simp only [Prod.mk.injEq] at heq <;> obtain ⟨hr, rfl⟩ := heq
  · exact ⟨rfl, _, h.1, rfl, fun _ _ _ => h.2 hr⟩
  · exact ⟨rfl, _, h.1, rfl, fun _ _ h => by cases h⟩

theorem sendsUpTo_bind {m : Session α} {f : α → Session β} (hm : SendsUpTo m w) (hf : ∀ a, SendsUpTo (f a) w') :
    SendsUpTo (m >>= f) (w ++ w') := by
  intro s
  obtain ⟨hin, o, ho, hout, hok⟩ := hm s
  simp only [bind, EStateM.bind]
  cases hms : m s with
  | ok a s₁ =>
    rw [hms] at hin hout
    simp only [final] at hin hout
    cases hok a s₁ hms
    obtain ⟨hin', o', ho', hout', hok'⟩ := hf a s₁
    exact ⟨hin'.trans hin, w ++ o', (List.prefix_append_right_inj w).2 ho', by rw [hout', hout, List.append_assoc],
      fun a' s' h => by rw [hok' a' s' h]⟩
  | error e s₁ =>
    rw [hms] at hin hout
    exact ⟨hin, o, ho.trans (List.prefix_append w w'), hout, fun _ _ h => by cases h⟩

theorem sendsUpTo_writeFmt (pieces : List Bytes) : SendsUpTo (writeFmt pieces) pieces.flatten := by
  induction pieces with
  | nil => exact sendsUpTo_pure ()
  | cons p pieces ih =>
    show SendsUpTo (writeAll p >>= fun _ => writeFmt pieces) _
    exact sendsUpTo_bind (sendsUpTo_writeAll p) fun _ => ih

theorem sendsPrefix_bind {m : Session α} {f : α → Session β} (hm : SendsUpTo m w) (hf : ∀ a, Reads (f a)) :
    SendsPrefix (m >>= f) w := by
  intro s
  obtain ⟨hin, o, ho, hout, hok⟩ := hm s
  simp only [bind, EStateM.bind]
  cases hms : m s with
  | ok a s₁ =>
    rw [hms] at hout
    cases hok a s₁ hms
    exact ⟨w, List.prefix_refl w, ((hf a s₁).1).trans hout, fun h => absurd rfl h⟩
  | error e s₁ =>
    rw [hms] at hin hout
    exact ⟨o, ho, hout, fun _ => ⟨⟨e, rfl⟩, hin⟩⟩

theorem sendsPrefix_map (f : α → β) {m : Session α} (h : SendsPrefix m w) : SendsPrefix (f <$> m) w := by
  intro s
  obtain ⟨o, ho, hout, hshort⟩ := h s
  refine ⟨o, ho, final_map f m s ▸ hout, fun hne => ?_⟩
  obtain ⟨⟨e, he⟩, hin⟩ := hshort hne
  refine ⟨⟨e, ?_⟩, final_map f m s ▸ hin⟩
  generalize final (m s) = s' at he
  show EStateM.map f m s = .error e (final (EStateM.map f m s))
  simp only [EStateM.map, he, final]

theorem sendsPrefix_throw (e : MemcacheError) : SendsPrefix (throw e : Session α) w :=
  fun _ => ⟨[], List.nil_prefix, by simp [throw, throwThe, MonadExceptOf.throw, EStateM.throw, final], fun _ => ⟨⟨e, rfl⟩, rfl⟩⟩

end Session

open Session

/-- The operations that send their request with `write!`: one `write_all` per piece. -/
def Command.sendsWithWriteAll : Command → Bool
  | .get _ | .gets _ | .delete _ | .touch .. | .increment .. | .decrement .. | .flushWithDelay _ => true
  | _ => false

namespace Ascii

variable (fromLine : Bytes → MemcacheError)

theorem get_sends (key : Bytes) : SendsPrefix (get fromLine key) [ascii "get ", key, crlf].flatten :=
  sendsPrefix_bind (sendsUpTo_writeFmt _) fun _ => reads_getReply fromLine key

theorem gets_sends (keys : List Bytes) : SendsPrefix (gets fromLine keys) [ascii "gets ", joinSpace keys, crlf].flatten :=
  sendsPrefix_bind (sendsUpTo_writeFmt _) fun _ => reads_getsReply fromLine

theorem keyedFlag_sends (key : Bytes) (request : List Bytes) (yes : Bytes) :
    SendsPrefix (keyedFlag fromLine key request yes) request.flatten := by
  unfold keyedFlag
  split
  · exact sendsPrefix_throw _
  · simp only [pure_bind]
    exact sendsPrefix_bind (sendsUpTo_writeFmt _) fun _ => reads_bind (reads_pure ()) fun _ => reads_flagReply fromLine yes

theorem counter_sends (command key : Bytes) (amount : UInt64) :
    SendsPrefix (counter fromLine command key amount) [command, key, [space], decimal amount.toNat, crlf].flatten := by
  unfold counter
  split
  · exact sendsPrefix_throw _
  · simp only [pure_bind]
    exact sendsPrefix_bind (sendsUpTo_writeFmt _) fun _ => reads_counterReply fromLine

theorem flushWithDelay_sends (delay : UInt32) :
    SendsPrefix (flushWithDelay fromLine delay) [ascii "flush_all ", decimal delay.toNat, crlf].flatten :=
  sendsPrefix_bind (sendsUpTo_writeFmt _) fun _ => reads_bind (reads_pure ()) fun _ => reads_okReply fromLine

end Ascii

/-- An operation that sends its request with `write!` puts a prefix of its request on the wire
whatever the transport does, and where the transport took less it fails without reading a
reply. -/
theorem Command.run_sends_prefix (fromLine : Bytes → MemcacheError) {cmd : Command} (hw : cmd.sendsWithWriteAll) :
    SendsPrefix (cmd.run fromLine) cmd.wire := by
  cases cmd
  case get key =>
    have h : [ascii "get ", key, crlf].flatten = (Command.get key).wire := by
      simp [Command.wire, Command.line_eq, Command.fields, Command.payload]; rfl
    exact sendsPrefix_map _ (h ▸ Ascii.get_sends fromLine key)
  case gets keys =>
    have h : [ascii "gets ", joinSpace keys, crlf].flatten = (Command.gets keys).wire := by
      simp [Command.wire, Command.line, Command.payload]
    exact sendsPrefix_map _ (h ▸ Ascii.gets_sends fromLine keys)
  case delete key =>
    have h : [ascii "delete ", key, crlf].flatten = (Command.delete key).wire := by
      simp [Command.wire, Command.line_eq, Command.fields, Command.payload]; rfl
    exact sendsPrefix_map _ (h ▸ Ascii.keyedFlag_sends fromLine key _ _)
  case touch key expiration =>
    have h : [ascii "touch ", key, [space], decimal expiration.toNat, crlf].flatten =
        (Command.touch key expiration).wire := by
      simp [Command.wire, Command.line_eq, Command.fields, Command.payload]; rfl
    exact sendsPrefix_map _ (h ▸ Ascii.keyedFlag_sends fromLine key _ _)
  case increment key amount =>
    have h : [ascii "incr ", key, [space], decimal amount.toNat, crlf].flatten =
        (Command.increment key amount).wire := by
      simp [Command.wire, Command.line_eq, Command.fields, Command.payload]; rfl
    exact sendsPrefix_map _ (h ▸ Ascii.counter_sends fromLine _ key amount)
  case decrement key amount =>
    have h : [ascii "decr ", key, [space], decimal amount.toNat, crlf].flatten =
        (Command.decrement key amount).wire := by
      simp [Command.wire, Command.line_eq, Command.fields, Command.payload]; rfl
    exact sendsPrefix_map _ (h ▸ Ascii.counter_sends fromLine _ key amount)
  case flushWithDelay delay =>
    have h : [ascii "flush_all ", decimal delay.toNat, crlf].flatten = (Command.flushWithDelay delay).wire := by
      simp [Command.wire, Command.line_eq, Command.fields, Command.payload]; rfl
    exact sendsPrefix_map _ (h ▸ Ascii.flushWithDelay_sends fromLine delay)
  all_goals cases hw

theorem run_sends_prefix_delete :
    SendsPrefix ((Command.delete (ascii "foo")).run fun _ => .serverError 0) (Command.delete (ascii "foo")).wire :=
  Command.run_sends_prefix _ rfl

namespace Ascii

variable {fromLine : Bytes → MemcacheError} {s : Stream}

theorem write_accept (buf : Bytes) (n : Nat) (hw : s.writes = [.accept n]) :
    write buf s = .ok (min n buf.length) { s with output := s.output ++ buf.take n, writes := [] } := by
  simp [write, Stream.write, hw]

theorem store_short_write {command : StoreCommand} {key : Bytes} {value : Value} {options : Options}
    (hkey : key.length ≤ 250) (hcas : command = .cas → options.cas.isSome) (hnoreply : options.noreply = false)
    (n : Nat) (hw : s.writes = [.accept n]) :
    store fromLine command key value options s = storeReply fromLine { s with writes := [], output := s.output ++
      ((joinSpace (storeFields command key value options.exptime (if command = .cas then options.cas else none)) ++
        crlf).take n ++ value.bytes ++ crlf) } := by
  unfold store
  simp only [gt_iff_lt, Nat.not_lt.2 hkey, if_false, hnoreply, Bool.false_eq_true, pure_bind]
  split
  · obtain ⟨c, hc⟩ := Option.isSome_iff_exists.1 (hcas ‹_›)
    simp [hc, bind, EStateM.bind, write_accept _ n hw, writeAll_healthy, write_healthy, storeFields, ‹command = _›,
      Session.flush, pure, EStateM.pure]
  · simp [bind, EStateM.bind, write_accept _ n hw, writeAll_healthy, write_healthy, storeFields, ‹¬command = _›,
      Session.flush, pure, EStateM.pure]

theorem write_short {α : Type} (w : Bytes) (r : Session α) (n : Nat) (hw : s.writes = [.accept n]) :
    (do let _ ← Session.write w; Session.flush; r) s = r { s with writes := [], output := s.output ++ w.take n } := by
  simp [bind, EStateM.bind, write_accept _ n hw, Session.flush, pure, EStateM.pure]

end Ascii

/-- The operations that send their request with one `write` call go on when the transport
takes only part of it: a storage command writes its data block after the cut header, and
every one of them then reads a reply. -/
theorem Command.run_short_write (fromLine : Bytes → MemcacheError) {cmd : Command} (hw : cmd.sendsWithWriteAll = false)
    (hkey : ∀ key, cmd.key = some key → key.length ≤ 250) (n : Nat) {s : Stream} (hs : s.writes = [.accept n]) :
    cmd.run fromLine s = cmd.reply fromLine { s with writes := [], output := s.output ++
      ((joinSpace cmd.fields ++ crlf).take n ++ (cmd.payload.map fun p => p ++ crlf).getD []) } := by
  cases cmd
  case set key value expiration | add key value expiration | replace key value expiration =>
    simp only [Command.run, Command.reply, Ascii.set, Ascii.add, Ascii.replace, Ascii.storeExpiring,
      Functor.map_map]
    exact map_apply_congr _ ((Ascii.store_short_write (hkey key rfl) (by simp) rfl n hs).trans
      (by simp [Command.fields, Command.payload]))
  case append key value | prepend key value =>
    simp only [Command.run, Command.reply, Ascii.append, Ascii.prepend, Ascii.storeConcat_eq_store, Functor.map_map]
    exact map_apply_congr _ ((Ascii.store_short_write (hkey key rfl) (by simp) rfl n hs).trans
      (by simp [Command.fields, Command.payload]))
  case cas key value expiration casId =>
    have h := @Ascii.store_short_write fromLine s .cas key value { exptime := expiration, cas := some casId }
      (hkey key rfl) (fun _ => rfl) rfl n hs
    refine map_apply_congr _ ?_
    simp only [Ascii.cas, Ascii.recoverStatus, h]
    simp [Command.fields, Command.payload]
  case flush | version | stats => exact map_apply_congr _ ((Ascii.write_short _ _ n hs).trans (by simp [Command.payload]; rfl))
  all_goals cases hw

/-- The transport takes five bytes of the header of a `set`: the data block follows them. -/
theorem run_short_write_set :
    (Command.set (ascii "foo") ⟨ascii "bar", 0⟩ 0).run (fun _ => .serverError 0)
        { input := bytesIn (ascii "STORED\r\n"), writes := [.accept 5] } =
      .ok .unit { input := [], output := ascii "set fbar\r\n" } := by
  rw [@Command.run_short_write _ (.set (ascii "foo") ⟨ascii "bar", 0⟩ 0) rfl
    (fun _ h => Option.some.inj h ▸ by decide) 5 _ rfl]
  rfl

/-! ## Replies of one line -/

namespace Session

def Still {α : Type} (m : Session α) : Prop := ∀ s, final (m s) = s

variable {α β : Type}

theorem still_pure (a : α) : Still (pure a : Session α) := fun _ => rfl

theorem still_throw (e : MemcacheError) : Still (throw e : Session α) := fun _ => rfl

theorem still_bind {m : Session α} {f : α → Session β} (hm : Still m) (hf : ∀ a, Still (f a)) : Still (m >>= f) := by
  intro s
  have := hm s
  simp only [bind, EStateM.bind]
  cases h : m s with
  | ok a s' => rw [h] at this; rw [hf a s']; exact this
  | error e s' => rwa [h] at this

theorem still_ite {c : Prop} [Decidable c] {t e : Session α} (ht : Still t) (he : Still e) :
    Still (if c then t else e) := by
  split <;> assumption

theorem final_readLine_bind {f : Bytes × Option IoError → Session α} (hf : ∀ a, Still (f a)) (s : Stream) :
    final ((readLine >>= f) s) = { s with input := (readLineChunks s.input).2.2 } :=
  hf _ _

end Session

theorem Ascii.final_recoverStatus (m : Session Bool) (s : Stream) :
    final (Ascii.recoverStatus m s) = final (m s) := by
  unfold Ascii.recoverStatus
  split <;> try split
  all_goals simp_all [final]

def Command.lineReply : Command → Bool
  | .get _ | .gets _ | .stats => false
  | _ => true

/-- Whatever the server answers, an expected reply, a line it does not know, a line cut by the
end of the input or by a failed read, an operation whose reply is one line takes exactly one
line off the input, so that the reply to the next request starts where the stream is left. -/
theorem Command.reply_one_line (fromLine : Bytes → MemcacheError) {cmd : Command} (hc : cmd.lineReply)
    (s : Stream) : final (cmd.reply fromLine s) = { s with input := (readLineChunks s.input).2.2 } := by
  cases cmd
  case get | gets | stats => cases hc
  all_goals
    simp only [Command.reply, final_map, Ascii.final_recoverStatus]
    refine final_readLine_bind (fun _ => ?_) s
    repeat' first
      | with_reducible exact still_pure _ | with_reducible exact still_throw _
      | with_reducible apply still_ite | with_reducible apply still_bind | split | intro _

theorem reply_one_line_touch :
    Session.final ((Command.touch (ascii "foo") 0).reply (fun _ => .serverError 0)
        { input := bytesIn (ascii "TOUCHED\r\nEND\r\n") }) = { input := bytesIn (ascii "END\r\n") } :=
  Command.reply_one_line _ (by decide) _

/-! ## Error replies -/

def Retried (pre : List Chunk) : Prop := ∀ e, Chunk.fault e ∈ pre → e.kind = .interrupted

theorem retried_nil : Retried [] := fun _ h => absurd h (List.not_mem_nil _)

theorem retried_cons_byte {b : UInt8} {pre : List Chunk} (h : Retried pre) : Retried (.byte b :: pre) :=
  fun e he => h e (by simpa using he)

theorem retried_cons_fault {e : IoError} {pre : List Chunk} (he : e.kind = .interrupted) (h : Retried pre) :
    Retried (.fault e :: pre) := by
  intro e' he'
  rcases List.mem_cons.1 he' with h' | h'
  · cases h'; exact he
  · exact h e' h'

theorem retried_append {p q : List Chunk} (hp : Retried p) (hq : Retried q) : Retried (p ++ q) := fun e he =>
  (List.mem_append.1 he).elim (hp e) (hq e)

theorem readLineChunks_retried : ∀ {input : List Chunk}, (readLineChunks input).2.1 = none →
    ∃ pre, input = pre ++ (readLineChunks input).2.2 ∧ Retried pre
  | [], _ => ⟨[], rfl, retried_nil⟩
  | .byte b :: rest, h => by
    by_cases hb : b = 10
    · subst hb
      exact ⟨[.byte 10], rfl, retried_cons_byte retried_nil⟩
    · simp only [readLineChunks, hb, if_false] at h ⊢
      obtain ⟨pre, hpre, hr⟩ := readLineChunks_retried h
      exact ⟨.byte b :: pre, congrArg _ hpre, retried_cons_byte hr⟩
  | .fault e :: rest, h => by
    by_cases he : e.kind = .interrupted
    · simp only [readLineChunks, he, if_true] at h ⊢
      obtain ⟨pre, hpre, hr⟩ := readLineChunks_retried h
      exact ⟨.fault e :: pre, congrArg _ hpre, retried_cons_fault he hr⟩
    · simp [readLineChunks, he] at h

theorem readLineChunks_cut : ∀ {input : List Chunk}, (readLineChunks input).2.1 ≠ none →
    10 ∉ (readLineChunks input).1
  | [], h => absurd rfl h
  | .byte b :: rest, h => by
    by_cases hb : b = 10
    · subst hb; exact absurd rfl h
    · simp only [readLineChunks, hb, if_false, List.mem_cons, not_or] at h ⊢
      exact ⟨Ne.symm hb, readLineChunks_cut h⟩
  | .fault e :: rest, h => by
    by_cases he : e.kind = .interrupted
    · simp only [readLineChunks, he, if_true] at h ⊢
      exact readLineChunks_cut h
    · simp [readLineChunks, he]

theorem readExactChunks_retried {bs : Bytes} : ∀ {n : Nat} {input : List Chunk}, (readExactChunks n input).1 = .ok bs →
    ∃ pre, input = pre ++ (readExactChunks n input).2 ∧ Retried pre
  | 0, input, _ => ⟨[], by cases input <;> rfl, retried_nil⟩
  | _ + 1, [], h => by cases h
  | n + 1, .byte b :: rest, h => by
    simp only [readExactChunks] at h ⊢
    cases hm : (readExactChunks n rest).1 with
    | error e => rw [hm] at h; cases h
    | ok bs' =>
      obtain ⟨pre, hpre, hr⟩ := readExactChunks_retried hm
      exact ⟨.byte b :: pre, congrArg _ hpre, retried_cons_byte hr⟩
  | n + 1, .fault e :: rest, h => by
    by_cases he : e.kind = .interrupted
    · simp only [readExactChunks, he, if_true] at h ⊢
      obtain ⟨pre, hpre, hr⟩ := readExactChunks_retried h
      exact ⟨.fault e :: pre, congrArg _ hpre, retried_cons_fault he hr⟩
    · simp [readExactChunks, he] at h

namespace Session

/-- `m` returns only when every failed read it took off the input was retried: it passes
every other failed read on. -/
def Strict {α : Type} (m : Session α) : Prop :=
  ∀ s a s', m s = .ok a s' → ∃ pre, s.input = pre ++ s'.input ∧ Retried pre

variable {α β : Type}

theorem strict_pure (a : α) : Strict (pure a : Session α) := by
  intro s _ _ h
  cases h
  exact ⟨[], rfl, retried_nil⟩

theorem strict_throw (e : MemcacheError) : Strict (throw e : Session α) := by
  intro _ _ _ h
  cases h

theorem strict_bind {m : Session α} {f : α → Session β} (hm : Strict m) (hf : ∀ a, Strict (f a)) :
    Strict (m >>= f) := by
  intro s b s' h
  simp only [bind, EStateM.bind] at h
  split at h
  · rename_i a s₁ hs
    obtain ⟨p, hp, hr⟩ := hm s a s₁ hs
    obtain ⟨q, hq, hr'⟩ := hf a s₁ b s' h
    exact ⟨p ++ q, by rw [hp, hq, List.append_assoc], retried_append hr hr'⟩
  · cases h

theorem strict_ite {c : Prop} [Decidable c] {t e : Session α} (ht : Strict t) (he : Strict e) :
    Strict (if c then t else e) := by
  split <;> assumption

theorem strict_map (f : α → β) {m : Session α} (h : Strict m) : Strict (f <$> m) := by
  intro s b s' hs
  cases hm : m s with
  | ok a s₁ =>
    rw [map_ok f hm] at hs
    cases hs
    exact h s a s' hm
  | error e s₁ => rw [map_error f hm] at hs; cases hs

theorem strict_get : Strict (EStateM.get : Session Stream) := by
  intro s _ _ h
  cases h
  exact ⟨[], rfl, retried_nil⟩

theorem strict_readExact (n : Nat) : Strict (readExact n) := by
  intro s a s' h
  rcases hr : readExactChunks n s.input with ⟨_ | bs, input⟩
  · simp [readExact, hr] at h
  · simp only [readExact, hr, EStateM.Result.ok.injEq] at h
    obtain ⟨rfl, rfl⟩ := h
    have := readExactChunks_retried (congrArg Prod.fst hr)
    rwa [hr] at this

theorem strict_parsed (o : Option α) : Strict (parsed o) := by
  cases o
  · exact strict_throw _
  · exact strict_pure _

theorem strict_readLine_bind {f : Bytes × Option IoError → Session α} (hf : ∀ a, Still (f a))
    (hok : ∀ line e s a s', f (line, some e) s = .ok a s' → 10 ∈ line) : Strict (readLine >>= f) := by
  intro s a s' h
  rcases hr : readLineChunks s.input with ⟨line, err, rest⟩
  have h' : f (appendToString line err) { s with input := rest } = .ok a s' := by
    rw [← h, bind_ok (show readLine s = .ok (appendToString line err) { s with input := rest } by simp [readLine, hr])]
  have hs' : s' = { s with input := rest } := by
    simpa only [final] using (congrArg final h').symm.trans (hf _ _)
  rcases hc : appendToString line err with ⟨line', _ | e⟩
  · obtain ⟨-, rfl, -⟩ := appendToString_none hc
    obtain ⟨pre, hpre, hret⟩ := readLineChunks_retried (by rw [hr])
    rw [hr] at hpre
    exact ⟨pre, by rw [hs']; exact hpre, hret⟩
  · rw [hc] at h'
    have hline := hok line' e _ a s' h'
    rcases appendToString_some hc with rfl | ⟨rfl, rfl⟩
    · exact absurd hline (List.not_mem_nil _)
    · have := @readLineChunks_cut s.input (by rw [hr]; nofun)
      rw [hr] at this
      exact absurd hline this

theorem strict_readLineChecked : Strict readLineChecked :=
  strict_readLine_bind (fun ⟨_, e⟩ => by cases e <;> first | exact still_pure _ | exact still_throw _)
    fun _ _ _ _ _ h => by cases h

end Session

namespace Ascii

variable (fromLine : Bytes → MemcacheError)

theorem strict_getReply (key : Bytes) : Strict (getReply fromLine key) := by
  refine strict_bind strict_readLineChecked fun _ => ?_
  repeat' first
    | with_reducible exact strict_readLineChecked | with_reducible exact strict_readExact _
    | with_reducible exact strict_parsed _ | with_reducible exact strict_pure _
    | with_reducible exact strict_throw _ | with_reducible apply strict_ite
    | with_reducible apply strict_bind | split | intro _

theorem strict_getsLoop : ∀ (fuel : Nat) (result : ItemMap), Strict (getsLoop fromLine fuel result)
  | 0, _ => strict_pure _
  | fuel + 1, result => by
    unfold getsLoop
    refine strict_bind strict_readLineChecked fun _ => ?_
    repeat' first
      | with_reducible exact strict_readLineChecked | with_reducible exact strict_readExact _
      | with_reducible exact strict_parsed _ | with_reducible exact strict_pure _
      | with_reducible exact strict_throw _ | with_reducible exact strict_getsLoop fuel _
      | with_reducible apply strict_ite | with_reducible apply strict_bind | split | intro _

theorem strict_statsLoop : ∀ (fuel : Nat) (result : Stats), Strict (statsLoop fromLine fuel result)
  | 0, _ => strict_pure _
  | fuel + 1, result => by
    unfold statsLoop
    refine strict_bind strict_readLineChecked fun _ => ?_
    repeat' first
      | with_reducible exact strict_pure _ | with_reducible exact strict_throw _
      | with_reducible exact strict_statsLoop fuel _ | with_reducible apply strict_ite
      | with_reducible apply strict_bind | split | intro _

theorem strict_storeReply : Strict (storeReply fromLine) := by
  refine strict_readLine_bind (fun _ => ?_) fun line e s a s' h => ?_
  · repeat' first
      | with_reducible exact still_pure _ | with_reducible exact still_throw _ | with_reducible apply still_ite
  · by_contra h10
    have hne (x : Bytes) (hx : 10 ∈ x) : line ≠ x := fun hl => h10 (hl ▸ hx)
    simp only [hne (ascii "STORED\r\n") (by decide), hne (ascii "NOT_STORED\r\n") (by decide), if_false] at h
    split_ifs at h <;> cases h

theorem strict_flagReply {yes : Bytes} (hyes : 10 ∈ yes) : Strict (flagReply fromLine yes) := by
  refine strict_readLine_bind (fun _ => ?_) fun line e s a s' h => ?_
  · repeat' first
      | with_reducible exact still_pure _ | with_reducible exact still_throw _ | with_reducible apply still_ite
  · by_contra h10
    have hne (x : Bytes) (hx : 10 ∈ x) : line ≠ x := fun hl => h10 (hl ▸ hx)
    simp only [hne yes hyes, hne (ascii "NOT_FOUND\r\n") (by decide), if_false] at h
    split_ifs at h <;> cases h

theorem strict_okReply : Strict (okReply fromLine) := by
  refine strict_readLine_bind (fun _ => ?_) fun line e s a s' h => ?_
  · repeat' first
      | with_reducible exact still_pure _ | with_reducible exact still_throw _ | with_reducible apply still_ite
  · by_contra h10
    have hne : line ≠ ascii "OK\r\n" := fun hl => h10 (hl ▸ by decide)
    simp only [hne, ne_eq, not_false_eq_true, if_true] at h
    split_ifs at h <;> cases h

theorem recoverStatus_readLine_bind (f : Bytes × Option IoError → Session Bool) :
    recoverStatus (readLine >>= f) = readLine >>= fun a => recoverStatus (f a) :=
  rfl

theorem still_recoverStatus {m : Session Bool} (h : Still m) : Still (recoverStatus m) := fun s =>
  (final_recoverStatus m s).trans (h s)

theorem recoverStatus_throw {e : MemcacheError}
    (he : e ≠ .ofStatus ResponseStatus.keyExists.code ∧ e ≠ .ofStatus ResponseStatus.keyNotFound.code) (s : Stream) :
    recoverStatus (throw e) s = .error e s := by
  cases e <;> simp_all [recoverStatus, throw, throwThe, MonadExceptOf.throw, EStateM.throw, MemcacheError.ofStatus,
    ResponseStatus.code]

theorem strict_casReply
    (hfrom : ∀ line, fromLine line ≠ .ofStatus ResponseStatus.keyExists.code ∧
      fromLine line ≠ .ofStatus ResponseStatus.keyNotFound.code) :
    Strict (recoverStatus (storeReply fromLine)) := by
  rw [storeReply, recoverStatus_readLine_bind]
  refine strict_readLine_bind (fun _ => still_recoverStatus ?_) fun line e s a s' h => ?_
  · repeat' first
      | with_reducible exact still_pure _ | with_reducible exact still_throw _ | with_reducible apply still_ite
  · by_contra h10
    have hne (x : Bytes) (hx : 10 ∈ x) : line ≠ x := fun hl => h10 (hl ▸ hx)
    simp only [hne (ascii "STORED\r\n") (by decide), hne (ascii "NOT_STORED\r\n") (by decide),
      hne (ascii "EXISTS\r\n") (by decide), hne (ascii "NOT_FOUND\r\n") (by decide), if_false] at h
    split_ifs at h
    · rw [recoverStatus_throw (hfrom line)] at h; cases h
    · rw [recoverStatus_throw (by decide)] at h; cases h

end Ascii

theorem Session.not_strict {α : Type} {m : Session α} {s s' : Stream} {a : α} {pre : List Chunk} {e : IoError}
    (h : m s = .ok a s') (hs : s.input = pre ++ s'.input) (he : Chunk.fault e ∈ pre) (hk : e.kind ≠ .interrupted) :
    ¬ Strict m := fun hm => by
  obtain ⟨pre', hpre', hret⟩ := hm s a s' h
  rw [List.append_cancel_right (hpre'.symm.trans hs)] at hret
  exact hk (hret e he)

/-- The operations that make a value of a line cut by a failed read: the counters parse its
digits and `version` returns the rest of it. -/
def Command.acceptsCutLine : Command → Bool
  | .increment .. | .decrement .. | .version => true
  | _ => false

/-- Exactly the counters and `version` return after a read that fails in the middle of their
reply. Every other operation returns only when each failed read of its reply was retried:
`get`, `gets` and `stats` pass the error of `read_line` on, and the others, which drop it,
return only on a whole line (`cas` where no error line is read as a status). -/
theorem Command.reply_strict_iff (fromLine : Bytes → MemcacheError)
    (hfrom : ∀ line, fromLine line ≠ .ofStatus ResponseStatus.keyExists.code ∧
      fromLine line ≠ .ofStatus ResponseStatus.keyNotFound.code) (cmd : Command) :
    Strict (cmd.reply fromLine) ↔ cmd.acceptsCutLine = false := by
  have cut (line : Bytes) : Chunk.fault ⟨.timedOut⟩ ∈ bytesIn line ++ [.fault ⟨.timedOut⟩] := by simp
  constructor
  · intro h
    cases cmd
    case increment | decrement =>
      exact absurd h (@not_strict _ _ { input := bytesIn (ascii "1") ++ [.fault ⟨.timedOut⟩] } { input := [] } _ _ _
        rfl (List.append_nil _).symm (cut (ascii "1")) nofun)
    case version =>
      exact absurd h (@not_strict _ _ { input := bytesIn (ascii "VERSION 1") ++ [.fault ⟨.timedOut⟩] } { input := [] }
        _ _ _ rfl (List.append_nil _).symm (cut (ascii "VERSION 1")) nofun)
    all_goals rfl
  · intro hc
    cases cmd
    case get key => exact strict_map _ (Ascii.strict_getReply fromLine key)
    case gets => exact strict_map _ (strict_bind strict_get fun _ => Ascii.strict_getsLoop fromLine _ _)
    case stats => exact strict_map _ (strict_bind strict_get fun _ => Ascii.strict_statsLoop fromLine _ _)
    case set | add | replace | append | prepend => exact strict_map _ (Ascii.strict_storeReply fromLine)
    case cas => exact strict_map _ (Ascii.strict_casReply fromLine hfrom)
    case delete | touch => exact strict_map _ (Ascii.strict_flagReply fromLine (by decide))
    case flush | flushWithDelay => exact strict_map _ (Ascii.strict_okReply fromLine)
    case increment | decrement | version => cases hc

theorem reply_strict_iff_delete :
    Strict ((Command.delete (ascii "foo")).reply fun _ => .clientError []) ↔
      (Command.delete (ascii "foo")).acceptsCutLine = false :=
  Command.reply_strict_iff _ (fun _ => ⟨by decide, by decide⟩) _

end Memcache
