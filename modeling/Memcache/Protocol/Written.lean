import Memcache.Protocol.Replies

/-!
# What a session writes

Every method of `AsciiProtocol` writes its whole request before it reads anything, and what
it reads never writes. On a stream whose writes all succeed a method is its reply reader, run
once its request `Command.wire` has gone out (`Command.run_healthy`): the fields of its command
line joined by spaces (`gets` writes its word and a space before its keys, so also before none),
then `\r\n`, then for a storage command the payload and `\r\n`. So
however the reading goes, the method ends with its request appended to the output
(`Command.run_emits`).
-/

namespace Memcache

namespace Session

def final {α : Type} : EStateM.Result MemcacheError Stream α → Stream
  | .ok _ s => s
  | .error _ s => s

def Reads {α : Type} (m : Session α) : Prop :=
  ∀ s, (final (m s)).output = s.output ∧ (final (m s)).writes = s.writes

/-- On a stream whose writes all succeed, `m` appends `w` to the output and leaves the stream
healthy, however it ends. -/
def Emits {α : Type} (m : Session α) (w : Bytes) : Prop :=
  ∀ s : Stream, s.writes = [] → (final (m s)).output = s.output ++ w ∧ (final (m s)).writes = []

variable {α β : Type}

theorem reads_pure (a : α) : Reads (pure a : Session α) := fun _ => ⟨rfl, rfl⟩

theorem reads_throw (e : MemcacheError) : Reads (throw e : Session α) := fun _ => ⟨rfl, rfl⟩

theorem reads_bind {m : Session α} {f : α → Session β} (hm : Reads m) (hf : ∀ a, Reads (f a)) :
    Reads (m >>= f) := by
  intro s
  simp only [bind, EStateM.bind]
  cases h : m s with
  | ok a s' =>
    have := hm s
    rw [h] at this
    exact ⟨(hf a s').1.trans this.1, (hf a s').2.trans this.2⟩
  | error e s' =>
    have := hm s
    rwa [h] at this

theorem reads_ite {c : Prop} [Decidable c] {t e : Session α} (ht : Reads t) (he : Reads e) :
    Reads (if c then t else e) := by
  split <;> assumption

theorem reads_readLine : Reads readLine := fun _ => ⟨rfl, rfl⟩

theorem reads_readLineChecked : Reads readLineChecked := by
  refine reads_bind reads_readLine fun (_, err) => ?_
  cases err <;> first | exact reads_pure _ | exact reads_throw _

theorem reads_readExact (n : Nat) : Reads (readExact n) := by
  intro s
  simp only [readExact]
  split <;> exact ⟨rfl, rfl⟩

theorem reads_parsed (o : Option α) : Reads (parsed o) := by
  cases o <;> first | exact reads_pure _ | exact reads_throw _

theorem reads_get : Reads (EStateM.get : Session Stream) := fun _ => ⟨rfl, rfl⟩

theorem final_map (f : α → β) (m : Session α) (s : Stream) : final ((f <$> m) s) = final (m s) := by
  show final (EStateM.map f m s) = _
  unfold EStateM.map
  cases m s <;> rfl

theorem reads_map (f : α → β) {m : Session α} (h : Reads m) : Reads (f <$> m) :=
  fun s => final_map f m s ▸ h s

theorem map_apply_congr (f : α → β) {m m' : Session α} {s s' : Stream} (h : m s = m' s') :
    (f <$> m) s = (f <$> m') s' := by
  show EStateM.map f m s = EStateM.map f m' s'
  simp only [EStateM.map, h]

theorem bind_ok {m : Session α} {f : α → Session β} {s s' : Stream} {a : α}
    (h : m s = .ok a s') : (m >>= f) s = f a s' := by
  simp only [bind, EStateM.bind, h]

theorem map_ok (f : α → β) {m : Session α} {s s' : Stream} {a : α} (h : m s = .ok a s') :
    (f <$> m) s = .ok (f a) s' := by
  show EStateM.map f m s = _
  simp [EStateM.map, h]

theorem map_error (f : α → β) {m : Session α} {s s' : Stream} {e : MemcacheError}
    (h : m s = .error e s') : (f <$> m) s = .error e s' := by
  show EStateM.map f m s = _
  simp [EStateM.map, h]

end Session

namespace Ascii

open Session

variable (fromLine : Bytes → MemcacheError)

theorem reads_storeReply : Reads (storeReply fromLine) :=
  reads_bind reads_readLine fun _ => by
    repeat' first
      | with_reducible exact reads_pure _ | with_reducible exact reads_throw _
      | with_reducible apply reads_ite

theorem reads_versionReply : Reads (versionReply fromLine) :=
  reads_bind reads_readLine fun _ => by
    repeat' first
      | with_reducible exact reads_pure _ | with_reducible exact reads_throw _
      | with_reducible apply reads_ite | with_reducible apply reads_bind | intro _

theorem reads_okReply : Reads (okReply fromLine) :=
  reads_bind reads_readLine fun _ => by
    repeat' first
      | with_reducible exact reads_pure _ | with_reducible exact reads_throw _
      | with_reducible apply reads_ite

theorem reads_getReply (key : Bytes) : Reads (getReply fromLine key) := by
  refine reads_bind reads_readLineChecked fun _ => ?_
  repeat' first
    | with_reducible exact reads_readLineChecked | with_reducible exact reads_readExact _
    | with_reducible exact reads_parsed _ | with_reducible exact reads_pure _
    | with_reducible exact reads_throw _ | with_reducible apply reads_ite
    | with_reducible apply reads_bind | split | intro _

theorem reads_getsLoop : ∀ (fuel : Nat) (result : ItemMap), Reads (getsLoop fromLine fuel result)
  | 0, _ => reads_pure _
  | fuel + 1, result => by
    unfold getsLoop
    refine reads_bind reads_readLineChecked fun s => ?_
    repeat' first
      | with_reducible exact reads_readLineChecked | with_reducible exact reads_readExact _
      | with_reducible exact reads_parsed _ | with_reducible exact reads_pure _
      | with_reducible exact reads_throw _ | with_reducible exact reads_getsLoop fuel _ | with_reducible apply reads_ite
      | with_reducible apply reads_bind | split | intro _

theorem reads_getsReply : Reads (getsReply fromLine) :=
  reads_bind reads_get fun _ => reads_getsLoop fromLine _ _

theorem reads_recoverStatus {m : Session Bool} (h : Reads m) : Reads (recoverStatus m) := by
  intro s
  have := h s
  unfold recoverStatus
  split <;> rename_i heq <;> rw [heq] at this
  · exact this
  · split <;> exact this
  · exact this

theorem reads_flagReply (yes : Bytes) : Reads (flagReply fromLine yes) :=
  reads_bind reads_readLine fun _ => by
    repeat' first
      | with_reducible exact reads_pure _ | with_reducible exact reads_throw _
      | with_reducible apply reads_ite

theorem reads_counterReply : Reads (counterReply fromLine) :=
  reads_bind reads_readLine fun _ => by
    repeat' first
      | with_reducible exact reads_pure _ | with_reducible exact reads_throw _
      | with_reducible apply reads_ite | with_reducible apply reads_bind | split

theorem reads_statsLoop : ∀ (fuel : Nat) (result : Stats), Reads (statsLoop fromLine fuel result)
  | 0, _ => reads_pure _
  | fuel + 1, result => by
    unfold statsLoop
    refine reads_bind reads_readLineChecked fun s => ?_
    repeat' first
      | with_reducible exact reads_pure _ | with_reducible exact reads_throw _
      | with_reducible exact reads_statsLoop fuel _ | with_reducible apply reads_ite | with_reducible apply reads_bind
      | split | intro _

theorem reads_statsReply : Reads (statsReply fromLine) :=
  reads_bind reads_get fun _ => reads_statsLoop fromLine _ _

end Ascii

/-! ## The request of each operation -/

def storeFields (command : StoreCommand) (key : Bytes) (value : Value) (exptime : UInt32)
    (cas : Option UInt64) : List Bytes :=
  [command.display, key, decimal value.flags.toNat, decimal exptime.toNat, decimal value.bytes.length] ++
    (cas.map fun c => decimal c.toNat).toList

def Command.fields : Command → List Bytes
  | .get key => [ascii "get", key]
  | .gets keys => ascii "gets" :: keys
  | .set key value expiration => storeFields .set key value expiration none
  | .add key value expiration => storeFields .add key value expiration none
  | .replace key value expiration => storeFields .replace key value expiration none
  | .append key value => storeFields .append key value 0 none
  | .prepend key value => storeFields .prepend key value 0 none
  | .cas key value expiration casId => storeFields .cas key value expiration (some casId)
  | .delete key => [ascii "delete", key]
  | .increment key amount => [ascii "incr", key, decimal amount.toNat]
  | .decrement key amount => [ascii "decr", key, decimal amount.toNat]
  | .touch key expiration => [ascii "touch", key, decimal expiration.toNat]
  | .flush => [ascii "flush_all"]
  | .flushWithDelay delay => [ascii "flush_all", decimal delay.toNat]
  | .version => [ascii "version"]
  | .stats => [ascii "stats"]

def Command.payload : Command → Option Bytes
  | .set _ value _ | .add _ value _ | .replace _ value _ | .append _ value | .prepend _ value
  | .cas _ value _ _ => some value.bytes
  | _ => none

/-- The command line an operation writes: its fields with a space between any two, where `gets`
writes its word and a space before the keys, as `write!(.., "gets {}\r\n", keys.join(" "))`
does for no key too. -/
def Command.line : Command → Bytes
  | .gets keys => ascii "gets " ++ joinSpace keys
  | cmd => joinSpace cmd.fields

def Command.wire (cmd : Command) : Bytes :=
  cmd.line ++ crlf ++ (cmd.payload.map fun p => p ++ crlf).getD []

example : (Command.gets []).wire = ascii "gets \r\n" := by decide

theorem Command.line_eq {cmd : Command} (h : cmd ≠ .gets []) : cmd.line = joinSpace cmd.fields := by
  cases cmd
  case gets keys =>
    obtain ⟨k, ks, rfl⟩ := List.exists_cons_of_ne_nil fun hk => h (hk ▸ rfl)
    simp only [Command.line, Command.fields, joinSpace_cons_cons]
    rfl
  all_goals rfl

/-- A key of the spec's key domain: 1 to 250 bytes, none of them whitespace or a control
character. -/
def validKey (key : Bytes) : Bool :=
  !key.isEmpty && decide (key.length ≤ 250) && key.all fun b => 32 < b.toNat && b.toNat != 127

def Command.keysValid : Command → Bool
  | .gets keys => !keys.isEmpty && keys.all validKey
  | cmd => cmd.key.all validKey

/-- The keys of an operation are UTF-8, as the `&str` keys of the methods are. -/
def Command.keysUtf8 : Command → Bool
  | .gets keys => keys.all validUtf8
  | cmd => cmd.key.all validUtf8

theorem validKey_length {key : Bytes} (h : validKey key) : key.length ≤ 250 := by
  simp only [validKey, Bool.and_eq_true, decide_eq_true_eq] at h
  exact h.1.2

def Command.reply (fromLine : Bytes → MemcacheError) : Command → Session Reply
  | .get key => .item <$> Ascii.getReply fromLine key
  | .gets _ => .items <$> Ascii.getsReply fromLine
  | .set .. | .add .. | .replace .. | .append .. | .prepend .. =>
    (fun _ => .unit) <$> Ascii.storeReply fromLine
  | .cas .. => .flag <$> Ascii.recoverStatus (Ascii.storeReply fromLine)
  | .delete _ => .flag <$> Ascii.flagReply fromLine (ascii "DELETED\r\n")
  | .touch .. => .flag <$> Ascii.flagReply fromLine (ascii "TOUCHED\r\n")
  | .increment .. | .decrement .. => .number <$> Ascii.counterReply fromLine
  | .flush | .flushWithDelay _ => (fun _ => .unit) <$> Ascii.okReply fromLine
  | .version => .text <$> Ascii.versionReply fromLine
  | .stats => .stats <$> Ascii.statsReply fromLine

open Session Ascii in
theorem Command.reads_reply (fromLine : Bytes → MemcacheError) : ∀ cmd : Command, Reads (cmd.reply fromLine)
  | .get key => reads_map _ (reads_getReply fromLine key)
  | .gets _ => reads_map _ (reads_getsReply fromLine)
  | .set .. | .add .. | .replace .. | .append .. | .prepend .. => reads_map _ (reads_storeReply fromLine)
  | .cas .. => reads_map _ (reads_recoverStatus (reads_storeReply fromLine))
  | .delete _ | .touch .. => reads_map _ (reads_flagReply fromLine _)
  | .increment .. | .decrement .. => reads_map _ (reads_counterReply fromLine)
  | .flush | .flushWithDelay _ => reads_map _ (reads_okReply fromLine)
  | .version => reads_map _ (reads_versionReply fromLine)
  | .stats => reads_map _ (reads_statsReply fromLine)

/-! ## Sending the request -/

namespace Ascii

open Session

variable {fromLine : Bytes → MemcacheError} {s : Stream}

theorem store_healthy {command : StoreCommand} {key : Bytes} {value : Value} {options : Options}
    (hkey : key.length ≤ 250) (hcas : command = .cas → options.cas.isSome) (hnoreply : options.noreply = false)
    (hw : s.writes = []) :
    store fromLine command key value options s = storeReply fromLine { s with output := s.output ++
      (joinSpace (storeFields command key value options.exptime (if command = .cas then options.cas else none)) ++
        crlf ++ value.bytes ++ crlf) } := by
  unfold store
  simp only [gt_iff_lt, Nat.not_lt.2 hkey, if_false, hnoreply, Bool.false_eq_true, pure_bind]
  split
  · obtain ⟨c, hc⟩ := Option.isSome_iff_exists.1 (hcas ‹_›)
    simp [hc, bind, EStateM.bind, write_healthy, writeAll_healthy, hw, storeFields, ‹command = _›,
      Session.flush, pure, EStateM.pure]
  · simp [bind, EStateM.bind, write_healthy, writeAll_healthy, hw, storeFields, ‹¬command = _›,
      Session.flush, pure, EStateM.pure]

theorem get_healthy (key : Bytes) (hw : s.writes = []) :
    get fromLine key s = getReply fromLine key { s with output := s.output ++ (Command.get key).wire } := by
  have hwire : [ascii "get ", key, crlf].flatten = (Command.get key).wire := by
    simp [Command.wire, Command.line_eq, Command.fields, Command.payload]; rfl
  simp only [get, bind, EStateM.bind, writeFmt_healthy _ hw, hwire]

theorem gets_healthy (keys : List Bytes) (hw : s.writes = []) :
    gets fromLine keys s = getsReply fromLine { s with output := s.output ++ (Command.gets keys).wire } := by
  have hwire : [ascii "gets ", joinSpace keys, crlf].flatten = (Command.gets keys).wire := by
    simp [Command.wire, Command.line, Command.payload]
  simp only [gets, bind, EStateM.bind, writeFmt_healthy _ hw, hwire]

theorem keyedFlag_healthy {key : Bytes} (hkey : key.length ≤ 250) (request : List Bytes) (yes : Bytes)
    (hw : s.writes = []) :
    keyedFlag fromLine key request yes s = flagReply fromLine yes { s with output := s.output ++ request.flatten } := by
  simp [keyedFlag, Nat.not_lt.2 hkey, bind, EStateM.bind, writeFmt_healthy _ hw, Session.flush, pure,
    EStateM.pure]

theorem counter_healthy {command key : Bytes} (amount : UInt64) (hkey : key.length ≤ 250) (hw : s.writes = []) :
    counter fromLine command key amount s = counterReply fromLine { s with output := s.output ++
      (command ++ key ++ [space] ++ decimal amount.toNat ++ crlf) } := by
  simp [counter, Nat.not_lt.2 hkey, bind, EStateM.bind, writeFmt_healthy _ hw, pure, EStateM.pure]

theorem flush_healthy (hw : s.writes = []) :
    flush fromLine s = okReply fromLine { s with output := s.output ++ Command.flush.wire } := by
  simp [flush, bind, EStateM.bind, write_healthy _ hw, Session.flush, pure, EStateM.pure]; rfl

theorem flushWithDelay_healthy (delay : UInt32) (hw : s.writes = []) :
    flushWithDelay fromLine delay s =
      okReply fromLine { s with output := s.output ++ (Command.flushWithDelay delay).wire } := by
  have hwire : [ascii "flush_all ", decimal delay.toNat, crlf].flatten = (Command.flushWithDelay delay).wire := by
    simp [Command.wire, Command.line_eq, Command.fields, Command.payload]; rfl
  simp only [flushWithDelay, bind, EStateM.bind, writeFmt_healthy _ hw, hwire, Session.flush, pure, EStateM.pure]

theorem version_healthy (hw : s.writes = []) :
    version fromLine s = versionReply fromLine { s with output := s.output ++ Command.version.wire } := by
  simp [version, bind, EStateM.bind, write_healthy _ hw, Session.flush, pure, EStateM.pure]; rfl

theorem stats_healthy (hw : s.writes = []) :
    stats fromLine s = statsReply fromLine { s with output := s.output ++ Command.stats.wire } := by
  simp [stats, bind, EStateM.bind, write_healthy _ hw, Session.flush, pure, EStateM.pure]; rfl

end Ascii

open Session in
theorem Command.run_healthy (fromLine : Bytes → MemcacheError) {cmd : Command} (hkeys : cmd.keysValid)
    {s : Stream} (hw : s.writes = []) :
    cmd.run fromLine s = cmd.reply fromLine { s with output := s.output ++ cmd.wire } := by
  have hlen : ∀ key, cmd.key = some key → key.length ≤ 250 := fun key hk => validKey_length (by
    cases cmd <;> simp_all [Command.keysValid, Command.key])
  cases cmd with
  | get key => exact map_apply_congr _ (Ascii.get_healthy key hw)
  | gets keys => exact map_apply_congr _ (Ascii.gets_healthy keys hw)
  | set key value expiration | add key value expiration | replace key value expiration =>
    simp only [Command.run, Command.reply, Ascii.set, Ascii.add, Ascii.replace, Ascii.storeExpiring,
      Functor.map_map]
    exact map_apply_congr _ ((Ascii.store_healthy (hlen key rfl) (by simp) rfl hw).trans
      (by simp [Command.wire, Command.line_eq, Command.fields, Command.payload]))
  | append key value | prepend key value =>
    simp only [Command.run, Command.reply, Ascii.append, Ascii.prepend, Ascii.storeConcat_eq_store,
      Functor.map_map]
    exact map_apply_congr _ ((Ascii.store_healthy (hlen key rfl) (by simp) rfl hw).trans
      (by simp [Command.wire, Command.line_eq, Command.fields, Command.payload]))
  | cas key value expiration casId =>
    have h := @Ascii.store_healthy fromLine s .cas key value { exptime := expiration, cas := some casId }
      (hlen key rfl) (fun _ => rfl) rfl hw
    refine map_apply_congr _ ?_
    simp only [Ascii.cas, Ascii.recoverStatus, h]
    simp [Command.wire, Command.line_eq, Command.fields, Command.payload]
  | delete key =>
    exact map_apply_congr _ ((Ascii.keyedFlag_healthy (hlen key rfl) _ _ hw).trans
      (by simp [Command.wire, Command.line_eq, Command.fields, Command.payload]; rfl))
  | touch key expiration =>
    exact map_apply_congr _ ((Ascii.keyedFlag_healthy (hlen key rfl) _ _ hw).trans
      (by simp [Command.wire, Command.line_eq, Command.fields, Command.payload]; rfl))
  | increment key amount | decrement key amount =>
    exact map_apply_congr _ ((Ascii.counter_healthy amount (hlen key rfl) hw).trans
      (by simp [Command.wire, Command.line_eq, Command.fields, Command.payload]; rfl))
  | flush => exact map_apply_congr _ (Ascii.flush_healthy hw)
  | flushWithDelay delay => exact map_apply_congr _ (Ascii.flushWithDelay_healthy delay hw)
  | version => exact map_apply_congr _ (Ascii.version_healthy hw)
  | stats => exact map_apply_congr _ (Ascii.stats_healthy hw)

open Session in
theorem Command.run_emits (fromLine : Bytes → MemcacheError) {cmd : Command} (hkeys : cmd.keysValid) :
    Emits (cmd.run fromLine) cmd.wire := fun s hw => by
  rw [Command.run_healthy fromLine hkeys hw]
  obtain ⟨hout, hwr⟩ := Command.reads_reply fromLine cmd { s with output := s.output ++ cmd.wire }
  exact ⟨hout, hwr.trans hw⟩

end Memcache
