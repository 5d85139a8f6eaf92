import Memcache.Server.Answers
import Memcache.Client.Text
import Memcache.Client.Pools

/-!
# A connection to a server

An `Endpoint` is a connection whose peer is a memcached server: the server reads what a session
writes before the session first waits for input, serves it, and its reply is what the session
reads (`Endpoint.exchange`). `memcachedBackend` runs the client's sessions this way.

An endpoint is `Synced` when nothing waits to be read and its writes go through. From a synced
endpoint every operation in the key domain leaves it synced, the server as the request makes
it, and returns what the spec says (`Endpoint.exchange_command`).
-/

namespace Memcache

structure Endpoint where
  url : Bytes
  server : Memcached
  stream : Stream

def Endpoint.Synced (e : Endpoint) : Prop := e.stream.input = [] ∧ e.stream.writes = []

def Endpoint.exchange {α : Type} (m : Session α) : EStateM MemcacheError Endpoint α := fun e =>
  let request := (Session.final (m { e.stream with input := [] })).output.drop e.stream.output.length
  let served := e.server.serve request.length request
  match m { e.stream with input := e.stream.input ++ bytesIn served.2 } with
  | .ok a s => .ok a { e with server := served.1, stream := s }
  | .error err s => .error err { e with server := served.1, stream := s }

def memcachedBackend (fromLine : Bytes → MemcacheError) : Backend Endpoint :=
  Backend.ofSessions fromLine Endpoint.exchange Endpoint.url

def Endpoint.after (cmd : Command) (e : Endpoint) : Endpoint :=
  { e with
    server := (e.server.handle cmd.request).1
    stream := { e.stream with output := e.stream.output ++ cmd.wire } }

@[simp] theorem Endpoint.after_server (cmd : Command) (e : Endpoint) :
    (e.after cmd).server = (e.server.handle cmd.request).1 := rfl

theorem Endpoint.Synced.after {e : Endpoint} (he : e.Synced) (cmd : Command) : (e.after cmd).Synced := he

theorem Memcached.serve_nil (fuel : Nat) (σ : Memcached) : Memcached.serve fuel [] σ = (σ, []) := by
  cases fuel <;> rfl

theorem Memcached.serve_request {input : Bytes} {request : Request} (h : decodeRequest input = some (request, []))
    (σ : Memcached) : Memcached.serve input.length input σ = σ.handle request := by
  obtain ⟨b, bs, rfl⟩ := List.exists_cons_of_ne_nil (fun hnil : input = [] => by subst hnil; cases h)
  simp [Memcached.serve, h, Memcached.serve_nil]

theorem Endpoint.exchange_map {α β : Type} (f : α → β) (m : Session α) :
    Endpoint.exchange (f <$> m) = f <$> Endpoint.exchange m := by
  funext e
  show _ = EStateM.map f _ e
  simp only [Endpoint.exchange, Session.final_map, EStateM.map]
  split <;> rename_i h <;> rw [Session.map_apply_congr f rfl] at h <;> simp only [Functor.map, EStateM.map] at h <;>
    split at h <;> cases h <;> simp_all

theorem Endpoint.exchange_command (fromLine : Bytes → MemcacheError) {cmd : Command} (hkeys : cmd.keysValid)
    (hutf : cmd.keysUtf8) (hsize : cmd.payloadFits) {e : Endpoint} (he : e.Synced) :
    ∃ r, Endpoint.exchange (cmd.run fromLine) e = resultOf r (e.after cmd) ∧
      ∀ r', e.server.expect cmd = some r' → r = r' := by
  have hemit := (Command.run_emits fromLine hkeys { e.stream with input := [] } he.2).1
  have hserve := Memcached.serve_request (by simpa using Command.decodeRequest_wire hkeys hsize []) e.server
  have hrun := Command.run_healthy fromLine hkeys
    (s := { e.stream with input := bytesIn (e.server.handle cmd.request).2 }) he.2
  obtain ⟨r, hr, hexp⟩ := Command.reply_served fromLine hkeys hutf hsize e.server
    { e.stream with output := e.stream.output ++ cmd.wire }
  refine ⟨r, ?_, hexp⟩
  dsimp only at hemit hrun hr
  simp only [Endpoint.exchange, Endpoint.after, hemit, List.drop_left, hserve, he.1, List.nil_append, hrun, hr]
  cases r <;> rfl

theorem Endpoint.exchange_ok (fromLine : Bytes → MemcacheError) {α : Type} {f : α → Reply}
    (hf : Function.Injective f) {m : Session α} {cmd : Command} (hrun : cmd.run fromLine = f <$> m)
    (hkeys : cmd.keysValid) (hutf : cmd.keysUtf8) (hsize : cmd.payloadFits) {e : Endpoint} (he : e.Synced) {a : α}
    (hexp : e.server.expect cmd = some (.ok (f a))) : Endpoint.exchange m e = .ok a (e.after cmd) := by
  obtain ⟨r, hr, hagree⟩ := Endpoint.exchange_command fromLine hkeys hutf hsize he
  rw [hagree _ hexp, hrun, Endpoint.exchange_map] at hr
  obtain ⟨a', ha', hfa⟩ := EStateM.map_ok.1 hr
  rwa [hf hfa] at ha'

end Memcache
