import Memcache.Server.Endpoint
import Memcache.Client.Batch

/-!
# The client against memcached servers

A program makes calls of the facade one after another, and takes the error of a call as its
outcome (`Client.runCalls`). The spec sees the same run as a list of servers, one per pool: a
call with a key applies its request to the server its key hashes to, `gets` asks the server of
each key, `flush` clears every server (a `flush_with_delay` other than zero leaves them, as the
servers have no clock), and every call returns what `Memcached.expect` says of the server of its
key (`Call.runSpec`).

Over pools that are synced endpoints of memcached servers, and calls whose keys lie in the key
domain and are UTF-8, the client refines this model (`Client.runCalls_refines`): each call returns what the
spec says, and the servers end as the spec's run leaves them. A call takes one step of the
model (`Client.attempt_call`, from one step lemma per kind of call), and a run follows by
induction.
-/

namespace Memcache

inductive Call
  | get (key : Bytes)
  | gets (keys : List Bytes)
  | set (key : Bytes) (value : Value) (expiration : UInt32)
  | add (key : Bytes) (value : Value) (expiration : UInt32)
  | replace (key : Bytes) (value : Value) (expiration : UInt32)
  | append (key : Bytes) (value : Value)
  | prepend (key : Bytes) (value : Value)
  | cas (key : Bytes) (value : Value) (expiration : UInt32) (casId : UInt64)
  | delete (key : Bytes)
  | increment (key : Bytes) (amount : UInt64)
  | decrement (key : Bytes) (amount : UInt64)
  | touch (key : Bytes) (expiration : UInt32)
  | flush
  | flushWithDelay (delay : UInt32)
  deriving DecidableEq, Repr

def Call.command : Call → Command
  | .get key => .get key
  | .gets keys => .gets keys
  | .set key value expiration => .set key value expiration
  | .add key value expiration => .add key value expiration
  | .replace key value expiration => .replace key value expiration
  | .append key value => .append key value
  | .prepend key value => .prepend key value
  | .cas key value expiration casId => .cas key value expiration casId
  | .delete key => .delete key
  | .increment key amount => .increment key amount
  | .decrement key amount => .decrement key amount
  | .touch key expiration => .touch key expiration
  | .flush => .flush
  | .flushWithDelay delay => .flushWithDelay delay

/-- The keys of the call lie in the key domain and are UTF-8, as the `&str` keys of the facade
are, and its payload is shorter than `usize` can count. -/
def Call.inDomain : Call → Bool
  | .gets keys => keys.all fun key => validKey key && validUtf8 key
  | call => call.command.keysValid && call.command.keysUtf8 && call.command.payloadFits

namespace Client

variable {P : Type} (t : Target) (b : Backend P) (o : HashOrder)

def call : Call → ClientM P Reply
  | .get key => .item <$> get t b key
  | .gets keys => .items <$> gets t b o keys
  | .set key value expiration => (fun _ => .unit) <$> set t b key value expiration
  | .add key value expiration => (fun _ => .unit) <$> add t b key value expiration
  | .replace key value expiration => (fun _ => .unit) <$> replace t b key value expiration
  | .append key value => (fun _ => .unit) <$> append t b key value
  | .prepend key value => (fun _ => .unit) <$> prepend t b key value
  | .cas key value expiration casId => .flag <$> cas t b key value expiration casId
  | .delete key => .flag <$> delete t b key
  | .increment key amount => .number <$> increment t b key amount
  | .decrement key amount => .number <$> decrement t b key amount
  | .touch key expiration => .flag <$> touch t b key expiration
  | .flush => (fun _ => .unit) <$> flush b
  | .flushWithDelay delay => (fun _ => .unit) <$> flushWithDelay b delay

/-- A call whose error the program takes as the call's outcome, and goes on. -/
def attempt {α : Type} (m : ClientM P α) : ClientM P (Except Fault α) := fun c =>
  match m c with
  | .ok a c' => .ok (.ok a) c'
  | .error e c' => .ok (.error e) c'

def runCalls (calls : List Call) : ClientM P (List (Except Fault Reply)) :=
  calls.mapM fun c => attempt (call t b o c)

/-- The pool `get_connection` and `hash_key` pick for `key`. -/
def route (c : Client P) (key : Bytes) : Nat := t.asUsize (c.hashFunction key) % c.connections.length

end Client

/-! ## The spec's run -/

namespace Call

variable (route : Bytes → Nat)

def serverOf (σs : List Memcached) (key : Bytes) : Memcached := σs.getD (route key) .empty

def next (σs : List Memcached) : Call → List Memcached
  | .gets _ => σs
  | .flush => σs.map Memcached.clear
  | .flushWithDelay delay => if delay = 0 then σs.map Memcached.clear else σs
  | call =>
    match call.command.key with
    | some key => σs.set (route key) ((serverOf route σs key).handle call.command.request).1
    | none => σs

/-- What the spec says a call returns: `gets` the entries the server of each key holds for it,
with their cas ids, and a call with a key what the server of its key gives. -/
def expect (σs : List Memcached) : Call → Option (Except MemcacheError Reply)
  | .gets keys => some (.ok (.items (gathered (fun key => (serverOf route σs key).items.lookup key) keys)))
  | .flush | .flushWithDelay _ => some (.ok .unit)
  | call => call.command.key.bind fun key => (serverOf route σs key).expect call.command

/-- The spec's run of `calls` from the servers `σs`: the servers it ends with, and what the spec
says each call returns. -/
def runSpec : List Memcached → List Call → List Memcached × List (Option (Except MemcacheError Reply))
  | σs, [] => (σs, [])
  | σs, call :: calls =>
    let rest := runSpec (call.next route σs) calls
    (rest.1, call.expect route σs :: rest.2)

variable {route} {call : Call} {key : Bytes}

theorem next_keyed (hkey : call.command.key = some key) (σs : List Memcached) :
    call.next route σs = σs.set (route key) ((serverOf route σs key).handle call.command.request).1 := by
  cases call <;> cases hkey <;> rfl

theorem expect_keyed (hkey : call.command.key = some key) (σs : List Memcached) :
    call.expect route σs = (serverOf route σs key).expect call.command := by
  cases call <;> cases hkey <;> rfl

theorem inDomain_keyed (hkey : call.command.key = some key) (h : call.inDomain) :
    (call.command.keysValid ∧ call.command.keysUtf8) ∧ call.command.payloadFits := by
  cases call <;> cases hkey <;> simpa [inDomain] using h

theorem length_next (σs : List Memcached) (call : Call) : (call.next route σs).length = σs.length := by
  cases hkey : call.command.key with
  | some key => rw [next_keyed hkey, List.length_set]
  | none => cases call <;> simp_all [next, Call.command, Command.key, apply_ite List.length]

end Call

/-! ## The client's pools as the spec's servers -/

namespace Client

def servers (c : Client Endpoint) : List Memcached := c.connections.map Endpoint.server

def Synced (c : Client Endpoint) : Prop := ∀ e ∈ c.connections, e.Synced

def fresh (urls : List Bytes) (hashFunction : Bytes → UInt64) : Client Endpoint :=
  ⟨urls.map fun url => ⟨url, .empty, { input := [] }⟩, hashFunction⟩

theorem synced_fresh (urls : List Bytes) (hashFunction : Bytes → UInt64) : (fresh urls hashFunction).Synced := by
  intro e he
  obtain ⟨url, -, rfl⟩ := List.mem_map.1 he
  exact ⟨rfl, rfl⟩

/-- An outcome of a call agrees with the spec: the call does not panic, and returns what the
spec says wherever it says anything. -/
def Agrees (r : Except Fault Reply) (spec : Option (Except MemcacheError Reply)) : Prop :=
  ∃ r₀ : Except MemcacheError Reply, r = r₀.mapError .error ∧ ∀ r', spec = some r' → r₀ = r'

variable (t : Target)

/-- `c'` is `c` after a call the spec runs as `call` from the servers of `c`, with an outcome
`r` that agrees with the spec. -/
structure Steps (c c' : Client Endpoint) (call : Call) (r : Except Fault Reply) : Prop where
  hash : c'.hashFunction = c.hashFunction
  synced : c'.Synced
  servers : c'.servers = call.next (c.route t) c.servers
  agrees : Agrees r (call.expect (c.route t) c.servers)

variable {P : Type} {c : Client P}

theorem hashKey_route (hne : c.connections ≠ []) (key : Bytes) : c.hashKey t key = some (c.route t key) := by
  simp [hashKey, route, hne]

theorem route_lt (hne : c.connections ≠ []) (key : Bytes) : c.route t key < c.connections.length :=
  Nat.mod_lt _ (List.length_pos.2 hne)

theorem Steps.route {c c' : Client Endpoint} {call : Call} {r : Except Fault Reply} (h : Steps t c c' call r) :
    c'.route t = c.route t := by
  have hlen : c'.connections.length = c.connections.length := by
    simpa [Client.servers, Call.length_next] using congrArg List.length h.servers
  funext key
  simp only [Client.route, h.hash, hlen]

/-! ## Calls on the pools -/

variable {α β : Type}

theorem onPool_map (f : α → β) (i : Nat) (m : EStateM MemcacheError P α) :
    onPool i (f <$> m) = f <$> onPool i m := by
  funext c
  simp only [onPool, Functor.map, EStateM.map]
  cases c.connections[i]? with
  | none => rfl
  | some p =>
    dsimp only
    cases m p <;> rfl

theorem onKey_map (f : α → β) (key : Bytes) (m : EStateM MemcacheError P α) :
    onKey t key (f <$> m) = f <$> onKey t key m := by
  funext c
  cases h : c.getConnection t key with
  | none => simp [onKey, h, Functor.map, EStateM.map]
  | some i =>
    simp only [onKey, h, Functor.map, EStateM.map]
    exact congrFun (onPool_map f i m) c

theorem attempt_ok {m : ClientM P α} {c c' : Client P} {a : α} (h : m c = .ok a c') :
    attempt m c = .ok (.ok a) c' := by
  simp [attempt, h]

theorem attempt_onKey {key : Bytes} {i : Nat} {m : EStateM MemcacheError P α} {p p' : P}
    {r : Except MemcacheError α} (hi : c.hashKey t key = some i) (hp : c.connections[i]? = some p)
    (hm : m p = resultOf r p') :
    attempt (onKey t key m) c = .ok (r.mapError .error) { c with connections := c.connections.set i p' } := by
  cases r <;> simp [attempt, onKey_eq_onPool t _ hi, onPool, hp, hm, resultOf, Except.mapError]

theorem onPool_then_url (b : Backend P) (i : Nat) (m : EStateM MemcacheError P α) :
    (do
      let a ← onPool i m
      let c ← EStateM.get
      pure ((c.connections.get? i).elim [] b.url, a) : ClientM P (Bytes × α)) =
      onPool i (do
        let a ← m
        let p ← EStateM.get
        pure (b.url p, a)) := by
  funext c
  simp only [onPool, bind, EStateM.bind, EStateM.get, pure, EStateM.pure]
  cases hp : c.connections[i]? with
  | none => rfl
  | some p =>
    have hi := (List.getElem?_eq_some_iff.1 hp).1
    cases h : m p <;> simp [h, hi]

theorem eachPool_eq (b : Backend P) (m : EStateM MemcacheError P α) (c : Client P) :
    eachPool b m c = ((List.range c.connections.length).mapM fun i => onPool i (do
      let a ← m
      let p ← EStateM.get
      pure (b.url p, a))) c := by
  simp only [eachPool, onPool_then_url]
  rfl

end Client

/-! ## One call -/

theorem List.set_of_getElem? {γ : Type} {l : List γ} {i : Nat} {a : γ} (h : l[i]? = some a) : l.set i a = l :=
  List.ext_getElem? fun j => by
    by_cases hij : i = j
    · subst hij
      rw [List.getElem?_set_self (List.getElem?_eq_some_iff.1 h).1, h]
    · rw [List.getElem?_set_ne hij]

theorem Endpoint.exchange_gets (fromLine : Bytes → MemcacheError) {keys : List Bytes} (hne : keys ≠ [])
    (hkeys : ∀ k ∈ keys, validKey k ∧ validUtf8 k) {e : Endpoint} (he : e.Synced) :
    (memcachedBackend fromLine).gets keys e = .ok (e.server.getsResult keys) (e.after (.gets keys)) :=
  Endpoint.exchange_ok fromLine (fun _ _ h => Reply.items.inj h)
    (show (Command.gets keys).run fromLine = Reply.items <$> Ascii.gets fromLine keys from rfl)
    (by simpa [Command.keysValid, hne] using fun k hk => (hkeys k hk).1)
    (by simpa [Command.keysUtf8] using fun k hk => (hkeys k hk).2) rfl he rfl

namespace Client

variable (fromLine : Bytes → MemcacheError) (t : Target) (o : HashOrder)

theorem call_keyed {call : Call} {key : Bytes} (hkey : call.command.key = some key) :
    Client.call t (memcachedBackend fromLine) o call = onKey t key (Endpoint.exchange (call.command.run fromLine)) := by
  cases call <;> cases hkey <;>
    simp only [Client.call, get, set, add, replace, append, prepend, cas, delete, increment, decrement, touch,
      memcachedBackend, Backend.ofSessions, Call.command, Command.run, Endpoint.exchange_map, onKey_map]

theorem attempt_keyed {call : Call} {key : Bytes} (hkey : call.command.key = some key) (hdom : call.inDomain)
    {c : Client Endpoint} (hne : c.connections ≠ []) (hsync : c.Synced) :
    ∃ r c', attempt (Client.call t (memcachedBackend fromLine) o call) c = .ok r c' ∧ Steps t c c' call r := by
  obtain ⟨e, hp⟩ : ∃ e, c.connections[c.route t key]? = some e := ⟨_, List.getElem?_eq_getElem (route_lt t hne key)⟩
  obtain ⟨⟨hkeys, hutf⟩, hsize⟩ := Call.inDomain_keyed hkey hdom
  obtain ⟨r, hr, hexp⟩ := Endpoint.exchange_command fromLine hkeys hutf hsize (hsync e (List.getElem?_mem hp))
  have hserver : Call.serverOf (c.route t) c.servers key = e.server := by simp [Call.serverOf, servers, hp]
  refine ⟨r.mapError .error, { c with connections := c.connections.set (c.route t key) (e.after call.command) },
    ?_, ⟨rfl, fun e' he' => ?_, ?_, r, rfl, fun r' h => hexp r' ?_⟩⟩
  · rw [call_keyed fromLine t o hkey]
    exact attempt_onKey t (hashKey_route t hne key) hp hr
  · rcases List.mem_or_eq_of_mem_set he' with he' | rfl
    · exact hsync e' he'
    · exact (hsync e (List.getElem?_mem hp)).after _
  · rw [Call.next_keyed hkey, hserver]
    simp [servers]
  · rwa [Call.expect_keyed hkey, hserver] at h

theorem mapM_onPool_reads {β α : Type} {xs : List β} {idx : β → Nat} {f : β → EStateM MemcacheError Endpoint α}
    (hstep : ∀ x ∈ xs, ∀ e : Endpoint, e.Synced → ∃ a e', f x e = .ok a e' ∧ e'.Synced ∧ e'.server = e.server) :
    ∀ {c : Client Endpoint}, (∀ x ∈ xs, idx x < c.connections.length) → c.Synced →
      ∃ rs c', (xs.mapM fun x => onPool (idx x) (f x)) c = .ok rs c' ∧ c'.hashFunction = c.hashFunction ∧
        c'.servers = c.servers ∧ c'.Synced := by
  induction xs with
  | nil => exact fun {c} _ hsync => ⟨[], c, rfl, rfl, rfl, hsync⟩
  | cons x xs ih =>
    intro c hidx hsync
    have hlt := hidx x (List.mem_cons_self _ _)
    obtain ⟨a, e', hf, hsync', hserver⟩ :=
      hstep x (List.mem_cons_self _ _) _ (hsync _ (List.getElem_mem hlt))
    have hc₁ : ({ c with connections := c.connections.set (idx x) e' } : Client Endpoint).servers = c.servers := by
      simp only [servers, List.map_set, hserver]
      exact List.set_of_getElem? (by simp [hlt])
    obtain ⟨rs, c', hrun, hhash, hservers, hsync''⟩ := ih (fun y hy => hstep y (List.mem_cons_of_mem _ hy))
      (c := { c with connections := c.connections.set (idx x) e' })
      (fun y hy => by simpa using hidx y (List.mem_cons_of_mem _ hy))
      (fun e he => (List.mem_or_eq_of_mem_set he).elim (hsync e) fun h => h ▸ hsync')
    exact ⟨a :: rs, c', EStateM.mapM_cons_ok.2 ⟨a, _, rs, onPool_of (List.getElem?_eq_getElem hlt) hf, hrun, rfl⟩,
      hhash, hservers.trans hc₁, hsync''⟩

theorem attempt_gets {keys : List Bytes} (hkeys : ∀ k ∈ keys, validKey k ∧ validUtf8 k) {c : Client Endpoint}
    (hne : c.connections ≠ []) (hsync : c.Synced) :
    ∃ r c', attempt (Client.call t (memcachedBackend fromLine) o (.gets keys)) c = .ok r c' ∧
      Steps t c c' (.gets keys) r := by
  have hroute := hashKey_route t hne
  obtain ⟨m, hm⟩ : ∃ m, groupBy (c.hashKey t) keys = some m := groupBy_of_isSome fun k _ => by simp [hroute]
  have hgroup : ∀ g ∈ o.visit m, g.1 < c.connections.length ∧ g.2 ≠ [] ∧ ∀ k ∈ g.2, validKey k ∧ validUtf8 k := by
    intro g hg
    have hgm := (visit_perm o (groupBy_nodup hm)).mem_iff.1 hg
    have hsub : ∀ k ∈ g.2, k ∈ keys ∧ c.hashKey t k = some g.1 := fun k hk => by
      simpa [groupBy_mem hm hgm] using hk
    obtain ⟨k, hk⟩ := List.exists_mem_of_ne_nil _ (groupBy_mem_ne_nil hm hgm)
    have hi : c.route t k = g.1 := by simpa [hroute] using (hsub k hk).2
    exact ⟨hi ▸ route_lt t hne k, groupBy_mem_ne_nil hm hgm, fun k hk => hkeys k (hsub k hk).1⟩
  obtain ⟨rsG, c', hrun, hhash, hservers, hsync'⟩ :=
    @mapM_onPool_reads _ _ _ Prod.fst (fun g => (memcachedBackend fromLine).gets g.2)
      (fun g hg e he => ⟨_, _, Endpoint.exchange_gets fromLine (hgroup g hg).2.1 (hgroup g hg).2.2 he, he.after _, rfl⟩)
      _ (fun g hg => (hgroup g hg).1) hsync
  have hZ : ∀ q ∈ (o.visit m).zip rsG, ∀ k ∈ q.2, k ∈ q.1.2 := by
    rintro ⟨⟨i, g⟩, r⟩ hq k hk
    obtain ⟨p, p', hp, hF⟩ := visit_results hm o hrun hq
    have hgi := hgroup _ (List.of_mem_zip hq).1
    obtain rfl := (EStateM.ok_inj hF
      (Endpoint.exchange_gets fromLine hgi.2.1 hgi.2.2 (hsync p (List.getElem?_mem hp)))).1
    by_contra hkg
    rw [← Finmap.lookup_isSome, Memcached.lookup_getsResult, if_neg hkg] at hk
    exact absurd hk (by simp)
  have hlookup : ∀ k, (((o.visit m).zip rsG).foldl (fun (r : ItemMap) q => r.extend q.2) ∅).lookup k =
      if k ∈ keys then ((Call.serverOf (c.route t) c.servers k).items.lookup k).map Entry.casItem else none := by
    intro k
    obtain ⟨p, hp⟩ : ∃ p, c.connections[c.route t k]? = some p :=
      ⟨_, List.getElem?_eq_getElem (route_lt t hne k)⟩
    have hserver : Call.serverOf (c.route t) c.servers k = p.server := by simp [Call.serverOf, servers, hp]
    obtain ⟨p', -, hpool⟩ := (mapM_onPool_split hrun).2.2 _ p hp
    rw [visit_filter_groups hm o] at hpool
    rw [lookup_gets_result o hm (EStateM.mapM_length hrun) hZ k, hroute, Option.getD_some, hserver]
    rcases entryAt_run hpool with ⟨hg, -⟩ | ⟨hg, r, hF, hr⟩
    · have hk : k ∉ keys := fun hk => by
        have : k ∈ keys.filter fun x => c.hashKey t x = some (c.route t k) := List.mem_filter.2 ⟨hk, by simp [hroute]⟩
        simp [hg] at this
      simp [hg, hk]
    · rw [entryAt_of_ne_nil hg, hr]
      obtain rfl := (EStateM.ok_inj hF (Endpoint.exchange_gets fromLine hg
        (fun x hx => hkeys x (List.mem_filter.1 hx).1) (hsync p (List.getElem?_mem hp)))).1
      simp [lookup_extend, Memcached.lookup_getsResult, hroute]
  have hcall : Client.call t (memcachedBackend fromLine) o (.gets keys) c =
      .ok (.items (((o.visit m).zip rsG).foldl (fun (r : ItemMap) q => r.extend q.2) ∅)) c' := by
    refine EStateM.map_ok.2 ⟨_, ?_, rfl⟩
    rw [gets_apply, hm]
    exact EStateM.map_ok.2 ⟨rsG, hrun, rfl⟩
  refine ⟨_, c', attempt_ok hcall, hhash, hsync', hservers, .ok (.items _), rfl, fun r' h => ?_⟩
  cases h
  congr 2
  exact Finmap.ext_lookup fun k => by rw [hlookup, lookup_gathered]

theorem eachPool_after {α : Type} (b : Backend Endpoint) (cmd : Command) {m : EStateM MemcacheError Endpoint α}
    (hm : ∀ e : Endpoint, e.Synced → ∃ a, m e = .ok a (e.after cmd)) {c : Client Endpoint} (hsync : c.Synced) :
    ∃ rs, eachPool b m c = .ok rs { c with connections := c.connections.map (Endpoint.after cmd) } := by
  rw [eachPool_eq]
  refine mapM_onPool_join (fun i hi => List.mem_range.1 hi) (List.length_map _ _) fun i p hp => ?_
  obtain ⟨a, ha⟩ := hm p (hsync p (List.getElem?_mem hp))
  refine ⟨[(b.url (p.after cmd), a)], p.after cmd, by simp [hp], ?_⟩
  rw [List.filter_eq, List.count_eq_one_of_mem (List.nodup_range _)
    (List.mem_range.2 (List.getElem?_eq_some_iff.1 hp).1)]
  simp only [List.replicate_one, List.mapM_cons, List.mapM_nil, bind, EStateM.bind, ha, EStateM.get, pure,
    EStateM.pure]

theorem attempt_flush {call : Call} (hflush : call = .flush ∨ ∃ delay, call = .flushWithDelay delay)
    {c : Client Endpoint} (hsync : c.Synced) :
    ∃ r c', attempt (Client.call t (memcachedBackend fromLine) o call) c = .ok r c' ∧ Steps t c c' call r := by
  obtain ⟨s, F, hcall, hrun, hkeys, hutf, hsize, hserver, hnext, hspec⟩ : ∃ (s : Session Unit) (F : Memcached → Memcached),
      Client.call t (memcachedBackend fromLine) o call =
        (fun _ => .unit) <$> ((fun _ => ()) <$> eachPool (memcachedBackend fromLine) (Endpoint.exchange s)) ∧
      call.command.run fromLine = (fun _ => .unit) <$> s ∧ call.command.keysValid ∧ call.command.keysUtf8 ∧
      call.command.payloadFits ∧
      (∀ σ : Memcached, σ.expect call.command = some (.ok .unit) ∧ (σ.handle call.command.request).1 = F σ) ∧
      (∀ route σs, call.next route σs = σs.map F) ∧
      ∀ route σs, call.expect route σs = some (.ok .unit) := by
    rcases hflush with rfl | ⟨delay, rfl⟩
    · exact ⟨_, Memcached.clear, rfl, rfl, rfl, rfl, rfl, fun _ => ⟨rfl, rfl⟩, fun _ _ => rfl, fun _ _ => rfl⟩
    · refine ⟨_, fun σ => if delay = 0 then σ.clear else σ, rfl, rfl, rfl, rfl, rfl, fun _ => ⟨rfl, rfl⟩,
        fun _ σs => ?_, fun _ _ => rfl⟩
      by_cases h : delay = 0 <;> simp [Call.next, h]
  obtain ⟨rs, hrs⟩ := eachPool_after (memcachedBackend fromLine) call.command
    (fun e he => ⟨(), Endpoint.exchange_ok fromLine (f := fun _ : Unit => Reply.unit) (fun _ _ _ => rfl) hrun
      hkeys hutf hsize he (hserver _).1⟩) hsync
  refine ⟨.ok .unit, { c with connections := c.connections.map (Endpoint.after call.command) }, attempt_ok ?_,
    rfl, fun e he => ?_, ?_, .ok .unit, rfl, fun r' h => ?_⟩
  · rw [hcall]
    exact EStateM.map_ok.2 ⟨(), EStateM.map_ok.2 ⟨rs, hrs, rfl⟩, rfl⟩
  · obtain ⟨e₀, he₀, rfl⟩ := List.mem_map.1 he
    exact (hsync e₀ he₀).after _
  · simp [servers, hnext, hserver]
  · rw [hspec] at h
    cases h
    rfl

theorem attempt_call {call : Call} (hdom : call.inDomain) {c : Client Endpoint} (hne : c.connections ≠ [])
    (hsync : c.Synced) :
    ∃ r c', attempt (Client.call t (memcachedBackend fromLine) o call) c = .ok r c' ∧ Steps t c c' call r := by
  cases hkey : call.command.key with
  | some key => exact attempt_keyed fromLine t o hkey hdom hne hsync
  | none =>
    cases call <;> simp only [Call.command, Command.key, reduceCtorEq] at hkey
    case gets keys => exact attempt_gets fromLine t o (by simpa [Call.inDomain] using hdom) hne hsync
    case flush => exact attempt_flush fromLine t o (.inl rfl) hsync
    case flushWithDelay delay => exact attempt_flush fromLine t o (.inr ⟨delay, rfl⟩) hsync

/-! ## Runs -/

theorem runCalls_steps {calls : List Call} (hdom : ∀ call ∈ calls, call.inDomain) :
    ∀ {c : Client Endpoint}, c.connections ≠ [] → c.Synced →
      ∃ rs c', runCalls t (memcachedBackend fromLine) o calls c = .ok rs c' ∧ c'.Synced ∧
        c'.servers = (Call.runSpec (c.route t) c.servers calls).1 ∧
        List.Forall₂ Agrees rs (Call.runSpec (c.route t) c.servers calls).2 := by
  induction calls with
  | nil => exact fun {c} _ hsync => ⟨[], c, rfl, hsync, rfl, .nil⟩
  | cons call calls ih =>
    intro c hne hsync
    obtain ⟨r, c₁, hstep, hsteps⟩ := attempt_call fromLine t o (hdom call (List.mem_cons_self _ _)) hne hsync
    have hne₁ : c₁.connections ≠ [] := by
      have := congrArg List.length hsteps.servers
      simp only [servers, List.length_map, Call.length_next] at this
      exact List.ne_nil_of_length_pos (this ▸ List.length_pos.2 hne)
    obtain ⟨rs, c', hrun, hsync', hservers, hagree⟩ :=
      ih (fun call' h => hdom call' (List.mem_cons_of_mem _ h)) hne₁ hsteps.synced
    rw [hsteps.route, hsteps.servers] at hservers hagree
    exact ⟨r :: rs, c', EStateM.mapM_cons_ok.2 ⟨r, c₁, rs, hstep, hrun, rfl⟩, hsync', hservers,
      .cons hsteps.agrees hagree⟩

/-- Over pools that are synced endpoints of memcached servers, a run of calls whose keys lie in
the key domain refines the spec's run: every key goes to the pool its hash picks, by
`get_connection` and `hash_key` alike; the run returns with the pools synced, the servers where
the spec's run leaves them, and for each call an outcome that agrees with the spec. -/
theorem runCalls_refines {c : Client Endpoint} (hne : c.connections ≠ []) (hsync : c.Synced)
    {calls : List Call} (hdom : ∀ call ∈ calls, call.inDomain) :
    (∀ key, c.getConnection t key = some (c.route t key) ∧ c.hashKey t key = some (c.route t key)) ∧
    ∃ rs c', runCalls t (memcachedBackend fromLine) o calls c = .ok rs c' ∧ c'.Synced ∧
      c'.servers = (Call.runSpec (c.route t) c.servers calls).1 ∧
      List.Forall₂ Agrees rs (Call.runSpec (c.route t) c.servers calls).2 :=
  ⟨fun key => ⟨(getConnection_eq_hashKey t c key).trans (hashKey_route t hne key), hashKey_route t hne key⟩,
    runCalls_steps fromLine t o hdom hne hsync⟩

theorem runCalls_refines_set_get :
    (fresh [ascii "memcache://localhost:12345"] fun _ => 0).connections ≠ [] ∧
    (fresh [ascii "memcache://localhost:12345"] fun _ => 0).Synced ∧
    (∀ call ∈ [Call.set (ascii "foo") ⟨ascii "bar\r\nEND\r\n", 7⟩ 0, Call.get (ascii "foo")], call.inDomain) ∧
    (∀ key, (fresh [ascii "memcache://localhost:12345"] fun _ => 0).getConnection ⟨64⟩ key =
        some ((fresh [ascii "memcache://localhost:12345"] fun _ => 0).route ⟨64⟩ key) ∧
      (fresh [ascii "memcache://localhost:12345"] fun _ => 0).hashKey ⟨64⟩ key =
        some ((fresh [ascii "memcache://localhost:12345"] fun _ => 0).route ⟨64⟩ key)) ∧
    ∃ rs c', runCalls ⟨64⟩ (memcachedBackend .clientError) ⟨fun ks => ks, fun _ => List.Perm.refl _⟩
        [Call.set (ascii "foo") ⟨ascii "bar\r\nEND\r\n", 7⟩ 0, Call.get (ascii "foo")]
        (fresh [ascii "memcache://localhost:12345"] fun _ => 0) = .ok rs c' ∧ c'.Synced ∧
      c'.servers = (Call.runSpec ((fresh [ascii "memcache://localhost:12345"] fun _ => 0).route ⟨64⟩)
        (fresh [ascii "memcache://localhost:12345"] fun _ => 0).servers
        [Call.set (ascii "foo") ⟨ascii "bar\r\nEND\r\n", 7⟩ 0, Call.get (ascii "foo")]).1 ∧
      List.Forall₂ Agrees rs (Call.runSpec ((fresh [ascii "memcache://localhost:12345"] fun _ => 0).route ⟨64⟩)
        (fresh [ascii "memcache://localhost:12345"] fun _ => 0).servers
        [Call.set (ascii "foo") ⟨ascii "bar\r\nEND\r\n", 7⟩ 0, Call.get (ascii "foo")]).2 :=
  have hne : (fresh [ascii "memcache://localhost:12345"] fun _ => 0).connections ≠ [] := by simp [fresh]
  have hdom : ∀ call ∈ [Call.set (ascii "foo") ⟨ascii "bar\r\nEND\r\n", 7⟩ 0, Call.get (ascii "foo")],
      call.inDomain := by decide
  ⟨hne, synced_fresh _ _, hdom, runCalls_refines .clientError ⟨64⟩ _ hne (synced_fresh _ _) hdom⟩

end Client

end Memcache
