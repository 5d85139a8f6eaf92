import Memcache.Protocol.Written

/-!
# The read loops end

The `loop`s of `gets` and `stats` go round until the reply says they are done. A round
(`getsRound`, `statsRound`: the body of the loop, with the rest of the loop as `next`) either
returns or goes on after a line of the reply, so what it does depends on `next` only on
streams strictly shorter than its own (`Descends`). The input left is then a decreasing
measure: the loop's equation has exactly one solution, and it is the loop `getsReply` and
`statsReply` run, with one round per chunk of input (`read_loops_terminate`).
-/

namespace Memcache

namespace Session

def Shortens {α : Type} (m : Session α) : Prop := ∀ s, (final (m s)).input.length ≤ s.input.length

def AgreeBelow {α : Type} (n : Nat) (p q : Session α) : Prop := ∀ s : Stream, s.input.length < n → p s = q s

variable {α β : Type} {n : Nat}

theorem shortens_pure (a : α) : Shortens (pure a : Session α) := fun _ => le_rfl

theorem shortens_throw (e : MemcacheError) : Shortens (throw e : Session α) := fun _ => le_rfl

theorem shortens_bind {m : Session α} {f : α → Session β} (hm : Shortens m) (hf : ∀ a, Shortens (f a)) :
    Shortens (m >>= f) := by
  intro s
  have := hm s
  simp only [bind, EStateM.bind]
  cases h : m s with
  | ok a s' => rw [h] at this; exact (hf a s').trans this
  | error e s' => rwa [h] at this

theorem shortens_readLine : Shortens readLine := fun s => readLineChunks_length_le s.input

theorem shortens_readLineChecked : Shortens readLineChecked :=
  shortens_bind shortens_readLine fun (_, err) => by
    cases err
    · exact shortens_pure _
    · exact shortens_throw _

theorem shortens_readExact (k : Nat) : Shortens (readExact k) := by
  intro s
  have := readExactChunks_length_le k s.input
  simp only [readExact]
  split <;> rename_i h <;> rw [h] at this <;> exact this

theorem shortens_parsed (o : Option α) : Shortens (parsed o) := by
  cases o
  · exact shortens_throw _
  · exact shortens_pure _

theorem agreeBelow_refl (p : Session α) : AgreeBelow n p p := fun _ _ => rfl

theorem agreeBelow_bind {m : Session α} {f g : α → Session β} (hm : Shortens m)
    (h : ∀ a, AgreeBelow n (f a) (g a)) : AgreeBelow n (m >>= f) (m >>= g) := by
  intro s hs
  have := hm s
  simp only [bind, EStateM.bind]
  cases hms : m s with
  | ok a s' => rw [hms] at this; exact h a s' (lt_of_le_of_lt this hs)
  | error e s' => rfl

theorem agreeBelow_ite {c : Prop} [Decidable c] {t t' e e' : Session α} (ht : AgreeBelow n t t')
    (he : AgreeBelow n e e') : AgreeBelow n (if c then t else e) (if c then t' else e') := by
  split <;> assumption

theorem readLineChecked_bind_congr {f g : Bytes → Session β} {s : Stream} (hnil : f [] = g [])
    (h : ∀ line (s' : Stream), line ≠ [] → s'.input.length < s.input.length → f line s' = g line s') :
    (readLineChecked >>= f) s = (readLineChecked >>= g) s := by
  have hlt := @readLineChunks_consumes s.input
  rcases hr : readLineChunks s.input with ⟨line, err, rest⟩
  rw [hr] at hlt
  rcases hc : appendToString line err with ⟨line', _ | e⟩
  · obtain ⟨-, -, rfl⟩ := appendToString_none hc
    simp only [readLineChecked, readLine, bind, EStateM.bind, pure, EStateM.pure, hr, hc]
    by_cases hl : line' = []
    · rw [hl, hnil]
    · exact h line' _ hl (hlt hl)
  · simp only [readLineChecked, readLine, bind, EStateM.bind, hr, hc]; rfl

end Session

open Session

/-! ## Loops whose rounds descend -/

section

variable {α : Type} (round : α → (α → Session α) → Session α)

def Descends : Prop :=
  ∀ (r : α) (next next' : α → Session α) (s : Stream),
    (∀ r' (s' : Stream), s'.input.length < s.input.length → next r' s' = next' r' s') →
      round r next s = round r next' s

variable (loop : Nat → α → Session α)

def Iterates : Prop := ∀ fuel r, loop (fuel + 1) r = round r (loop fuel)

variable {round loop} (hd : Descends round) (hi : Iterates round loop)
include hd hi

theorem loop_fuel {fuel fuel' : Nat} (r : α) {s : Stream} (h : s.input.length < fuel) (h' : s.input.length < fuel') :
    loop fuel r s = loop fuel' r s := by
  induction fuel generalizing fuel' r s with
  | zero => omega
  | succ fuel ih =>
    obtain ⟨fuel', rfl⟩ : ∃ k, fuel' = k + 1 := ⟨fuel' - 1, by omega⟩
    rw [hi, hi]
    exact hd r _ _ s fun r' s' hs' => ih r' (by omega) (by omega)

theorem loop_solves (r : α) (s : Stream) :
    loop (s.input.length + 1) r s = round r (fun r s => loop (s.input.length + 1) r s) s := by
  rw [hi]
  exact hd r _ _ s fun r' s' hs' => loop_fuel hd hi r' (by omega) (by omega)

theorem loop_unique {L : α → Session α} (hL : ∀ r, L r = round r L) (r : α) (s : Stream) :
    L r s = loop (s.input.length + 1) r s := by
  obtain ⟨k, hk⟩ : ∃ k, s.input.length = k := ⟨_, rfl⟩
  induction k using Nat.strong_induction_on generalizing r s with
  | _ k ih =>
    rw [hL, loop_solves hd hi r s]
    exact hd r _ _ s fun r' s' hs' => ih _ (hk ▸ hs') r' s' rfl

theorem loop_solves_iff (L : α → Session α) :
    (∀ r, L r = round r L) ↔ ∀ r s, L r s = loop (s.input.length + 1) r s := by
  refine ⟨fun hL => loop_unique hd hi hL, fun hL r => funext fun s => ?_⟩
  rw [hL, loop_solves hd hi r s]
  exact hd r _ _ s fun r' s' _ => (hL r' s').symm

end

namespace Ascii

variable (fromLine : Bytes → MemcacheError)

def getsRound (result : ItemMap) (next : ItemMap → Session ItemMap) : Session ItemMap := do
  let s ← Session.readLineChecked
  if isMemcacheError s then throw (fromLine s)
  else if startsWith s "END" then return result
  else if !startsWith s "VALUE" then throw invalidServerResponse
  match splitSpace (trimEndMatches crlf s) with
  | [_, key, flags, length, cas] =>
    let flags ← Session.parsed (parseU32 flags)
    let length ← Session.parsed (parseUsize length)
    let cas ← Session.parsed (parseU64 cas)
    let buffer ← Session.readExact length
    let result := result.insert key ⟨buffer, flags, some cas⟩
    let s ← Session.readLineChecked
    if s ≠ crlf then throw invalidServerResponse
    next result
  | _ => throw invalidServerResponse

def statsRound (result : Stats) (next : Stats → Session Stats) : Session Stats := do
  let s ← Session.readLineChecked
  if isMemcacheError s then throw (fromLine s)
  else if startsWith s "END" then return result
  else if !startsWith s "STAT" then throw invalidServerResponse
  match splitSpace (trimEndMatches crlf s) with
  | _ :: key :: _ :: _ =>
    let value := trimStartMatches (ascii "STAT " ++ key) s
    next (result.insert key value)
  | _ => throw invalidServerResponse

theorem getsLoop_iterates : Iterates (getsRound fromLine) (getsLoop fromLine) := fun _ _ => rfl

theorem statsLoop_iterates : Iterates (statsRound fromLine) (statsLoop fromLine) := fun _ _ => rfl

theorem getsRound_descends : Descends (getsRound fromLine) := by
  intro r next next' s h
  refine readLineChecked_bind_congr rfl fun line s' _ hs' => ?_
  refine (?_ : AgreeBelow s.input.length _ _) s' hs'
  repeat' first
    | with_reducible exact agreeBelow_refl _ | exact fun s' hs' => h _ s' hs'
    | with_reducible apply agreeBelow_ite | with_reducible apply agreeBelow_bind
    | with_reducible exact shortens_readLineChecked | with_reducible exact shortens_readExact _
    | with_reducible exact shortens_parsed _ | with_reducible exact shortens_throw _
    | with_reducible exact shortens_pure _ | split | intro _

theorem statsRound_descends : Descends (statsRound fromLine) := by
  intro r next next' s h
  refine readLineChecked_bind_congr rfl fun line s' _ hs' => ?_
  refine (?_ : AgreeBelow s.input.length _ _) s' hs'
  repeat' first
    | with_reducible exact agreeBelow_refl _ | exact fun s' hs' => h _ s' hs'
    | with_reducible apply agreeBelow_ite | with_reducible apply agreeBelow_bind
    | with_reducible exact shortens_throw _ | with_reducible exact shortens_pure _ | split | intro _

/-- The read loops of `gets` and `stats` end on every input: each round returns or goes on
only on a shorter input, so the loop's equation has one solution, the loop with one round per
chunk that `getsReply` and `statsReply` run from the empty map. -/
theorem read_loops_terminate :
    Descends (getsRound fromLine) ∧
    (∀ L : ItemMap → Session ItemMap,
      (∀ r, L r = getsRound fromLine r L) ↔ ∀ r s, L r s = getsLoop fromLine (s.input.length + 1) r s) ∧
    Descends (statsRound fromLine) ∧
    (∀ L : Stats → Session Stats,
      (∀ r, L r = statsRound fromLine r L) ↔ ∀ r s, L r s = statsLoop fromLine (s.input.length + 1) r s) :=
  ⟨getsRound_descends fromLine, loop_solves_iff (getsRound_descends fromLine) (getsLoop_iterates fromLine),
    statsRound_descends fromLine, loop_solves_iff (statsRound_descends fromLine) (statsLoop_iterates fromLine)⟩

end Ascii

end Memcache
