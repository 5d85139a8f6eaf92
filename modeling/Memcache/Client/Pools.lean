import Memcache.Client.Facade

/-!
# The pools are independent

A call on pool `i` reads and writes pool `i` only. So a run of calls, each on the pool of its
step, is the same as one run per pool of the steps for that pool, in their order: `mapM_onPool_split`
takes a run apart and `mapM_onPool_join` puts the per-pool runs together again. The batch
calls are runs of this kind, over the groups of their grouping loop.
-/

namespace Memcache

theorem EStateM.mapM_cons_ok {ε σ α β : Type} {f : α → EStateM ε σ β} {x : α} {xs : List α} {s s' : σ}
    {rs : List β} :
    (x :: xs).mapM f s = .ok rs s' ↔
      ∃ r s₁ rs', f x s = .ok r s₁ ∧ xs.mapM f s₁ = .ok rs' s' ∧ rs = r :: rs' := by
  simp only [List.mapM_cons, bind, EStateM.bind, pure, EStateM.pure]
  constructor
  · intro h
    split at h
    · rename_i r s₁ hx
      split at h
      · cases h; exact ⟨_, _, _, hx, ‹_›, rfl⟩
      · cases h
    · cases h
  · rintro ⟨r, s₁, rs', hx, hxs, rfl⟩
    simp only [hx, hxs]

theorem EStateM.forM_eq_mapM {ε σ α : Type} (f : α → EStateM ε σ Unit) (xs : List α) :
    xs.forM f = (fun _ => ()) <$> xs.mapM f := by
  induction xs with
  | nil => rfl
  | cons x xs ih =>
    rw [List.forM_cons', List.mapM_cons, ih]
    simp only [map_eq_pure_bind, bind_assoc, pure_bind]

theorem EStateM.foldlM_eq_mapM {ε σ α β γ : Type} (g : α → EStateM ε σ β) (h : γ → α → β → γ)
    (xs : List α) (init : γ) :
    xs.foldlM (fun acc x => do let r ← g x; pure (h acc x r)) init =
      (fun rs => (xs.zip rs).foldl (fun acc q => h acc q.1 q.2) init) <$> xs.mapM g := by
  induction xs generalizing init with
  | nil => rfl
  | cons x xs ih =>
    rw [List.foldlM_cons, List.mapM_cons]
    simp only [bind_assoc, pure_bind, ih, map_eq_pure_bind, List.zip_cons_cons, List.foldl_cons]

theorem EStateM.map_ok {ε σ α β : Type} {f : α → β} {x : EStateM ε σ α} {s s' : σ} {b : β} :
    (f <$> x) s = .ok b s' ↔ ∃ a, x s = .ok a s' ∧ f a = b := by
  show EStateM.map f x s = _ ↔ _
  unfold EStateM.map
  cases x s with
  | ok a s₁ =>
    simp only [EStateM.Result.ok.injEq]
    exact ⟨fun ⟨hb, hs⟩ => ⟨a, ⟨rfl, hs⟩, hb⟩, fun ⟨_, ⟨ha, hs⟩, hb⟩ => ⟨ha ▸ hb, hs⟩⟩
  | error => simp

theorem EStateM.mapM_length {ε σ α β : Type} {f : α → EStateM ε σ β} :
    ∀ {xs : List α} {s s' : σ} {rs : List β}, xs.mapM f s = .ok rs s' → rs.length = xs.length
  | [], _, _, _, h => by cases h; rfl
  | _ :: _, _, _, _, h => by
    obtain ⟨_, _, _, -, hxs, rfl⟩ := EStateM.mapM_cons_ok.1 h
    simp [EStateM.mapM_length hxs]

theorem EStateM.mapM_ok_of_mem {ε σ α β : Type} {f : α → EStateM ε σ β} :
    ∀ {xs : List α} {s s' : σ} {rs : List β}, xs.mapM f s = .ok rs s' →
      ∀ q ∈ xs.zip rs, ∃ s₁ s₂, f q.1 s₁ = .ok q.2 s₂
  | [], _, _, _, _ => by simp
  | _ :: _, _, _, _, h => by
    obtain ⟨_, _, _, hx, hxs, rfl⟩ := EStateM.mapM_cons_ok.1 h
    rintro q (_ | ⟨_, hq⟩)
    · exact ⟨_, _, hx⟩
    · exact EStateM.mapM_ok_of_mem hxs q hq

theorem EStateM.ok_inj {ε σ α : Type} {x : EStateM ε σ α} {s s₁ s₂ : σ} {a₁ a₂ : α}
    (h₁ : x s = .ok a₁ s₁) (h₂ : x s = .ok a₂ s₂) : a₁ = a₂ ∧ s₁ = s₂ := by
  rw [h₁] at h₂
  cases h₂
  exact ⟨rfl, rfl⟩

namespace Client

variable {P α β : Type}

def resultsAt (idx : β → Nat) (i : Nat) (xs : List β) (rs : List α) : List α :=
  ((xs.zip rs).filter fun q => idx q.1 = i).map Prod.snd

theorem resultsAt_cons (idx : β → Nat) (i : Nat) (x : β) (xs : List β) (r : α) (rs : List α) :
    resultsAt idx i (x :: xs) (r :: rs) =
      if idx x = i then r :: resultsAt idx i xs rs else resultsAt idx i xs rs := by
  by_cases h : idx x = i <;> simp [resultsAt, h]

theorem zip_filter_eq_resultsAt (idx : β → Nat) (i : Nat) :
    ∀ {xs : List β} {rs : List α}, rs.length = xs.length →
      (xs.zip rs).filter (fun q => idx q.1 = i) = (xs.filter fun x => idx x = i).zip (resultsAt idx i xs rs)
  | [], _, _ => rfl
  | _ :: _, [], h => by cases h
  | x :: xs, r :: rs, h => by
    rw [resultsAt_cons]
    by_cases hx : idx x = i <;>
      simp [hx, zip_filter_eq_resultsAt idx i (Nat.succ.inj h)]

theorem resultsAt_eq_nil {idx : β → Nat} {i : Nat} {xs : List β} {rs : List α}
    (hlen : rs.length = xs.length) (h : (xs.filter fun x => idx x = i) = []) :
    resultsAt idx i xs rs = [] := by
  rw [resultsAt, zip_filter_eq_resultsAt idx i hlen, h]
  rfl

theorem map_fst_filter_zip (p : β → Bool) :
    ∀ {xs : List β} {rs : List α}, rs.length = xs.length →
      ((xs.zip rs).filter fun q => p q.1).map Prod.fst = xs.filter p
  | [], _, _ => rfl
  | _ :: _, [], h => by cases h
  | x :: xs, r :: rs, h => by
    by_cases hx : p x <;> simp [hx, map_fst_filter_zip p (Nat.succ.inj h)]

theorem onPool_ok {i : Nat} {m : EStateM MemcacheError P α} {c c' : Client P} {a : α}
    (h : onPool i m c = .ok a c') :
    ∃ p p', c.connections[i]? = some p ∧ m p = .ok a p' ∧
      c' = { c with connections := c.connections.set i p' } := by
  unfold onPool at h
  split at h
  · cases h
  · rename_i p hp
    split at h
    · cases h; exact ⟨p, _, hp, ‹_›, rfl⟩
    · cases h

theorem onPool_of {i : Nat} {m : EStateM MemcacheError P α} {c : Client P} {p p' : P} {a : α}
    (hp : c.connections[i]? = some p) (hm : m p = .ok a p') :
    onPool i m c = .ok a { c with connections := c.connections.set i p' } := by
  simp [onPool, hp, hm]

theorem onPool_frame {i : Nat} {m : EStateM MemcacheError P α} {c c' : Client P} {a : α}
    (h : onPool i m c = .ok a c') :
    c'.hashFunction = c.hashFunction ∧ c'.connections.length = c.connections.length := by
  obtain ⟨-, -, -, -, rfl⟩ := onPool_ok h
  simp

theorem with_connections_self {c c' : Client P} (h : c'.hashFunction = c.hashFunction) :
    { c with connections := c'.connections } = c' := by
  cases c; cases c'; subst h; rfl

/-! ## Keyed calls -/

section Keyed

variable (t : Target)

theorem hashKey_congr {c c' : Client P} (hh : c'.hashFunction = c.hashFunction)
    (hl : c'.connections.length = c.connections.length) (key : Bytes) :
    c'.hashKey t key = c.hashKey t key := by
  simp only [hashKey, hh, hl]

theorem onKey_eq_onPool {c : Client P} {key : Bytes} {i : Nat} (m : EStateM MemcacheError P α)
    (h : c.hashKey t key = some i) : onKey t key m c = onPool i m c := by
  simp [onKey, getConnection_eq_hashKey, h]

theorem mapM_onKey_eq {xs : List β} (key : β → Bytes) (f : β → EStateM MemcacheError P α)
    {c : Client P} (idx : β → Nat) (hidx : ∀ x ∈ xs, c.hashKey t (key x) = some (idx x)) :
    ∀ c₁ : Client P, c₁.hashFunction = c.hashFunction →
      c₁.connections.length = c.connections.length →
      (xs.mapM fun x => onKey t (key x) (f x)) c₁ = (xs.mapM fun x => onPool (idx x) (f x)) c₁ := by
  induction xs with
  | nil => intro c₁ _ _; rfl
  | cons x xs ih =>
    intro c₁ hh hl
    simp only [List.mapM_cons, bind, EStateM.bind]
    rw [onKey_eq_onPool t _ ((hashKey_congr t hh hl _).trans (hidx x (List.mem_cons_self _ _)))]
    cases hres : onPool (idx x) (f x) c₁ with
    | ok a c₂ =>
      obtain ⟨hh₂, hl₂⟩ := onPool_frame hres
      simp only
      rw [ih (fun y hy => hidx y (List.mem_cons_of_mem _ hy)) c₂ (hh₂.trans hh) (hl₂.trans hl)]
    | error e c₂ => rfl

end Keyed

variable {idx : β → Nat} {f : β → EStateM MemcacheError P α}

theorem filter_cons_self (x : β) (xs : List β) :
    (x :: xs).filter (fun y => idx y = idx x) = x :: xs.filter (fun y => idx y = idx x) := by
  simp

theorem mapM_onPool_lt {xs : List β} {c c' : Client P} {rs : List α}
    (h : (xs.mapM fun x => onPool (idx x) (f x)) c = .ok rs c') :
    ∀ x ∈ xs, idx x < c.connections.length := by
  induction xs generalizing c rs with
  | nil => simp
  | cons x xs ih =>
    obtain ⟨r, c₁, rs', hx, hxs, rfl⟩ := EStateM.mapM_cons_ok.1 h
    obtain ⟨p, _, hp, -, rfl⟩ := onPool_ok hx
    rintro y (_ | ⟨_, hy⟩)
    · exact (List.getElem?_eq_some_iff.1 hp).1
    · simpa using ih hxs y hy

theorem mapM_onPool_split {xs : List β} {c c' : Client P} {rs : List α}
    (h : (xs.mapM fun x => onPool (idx x) (f x)) c = .ok rs c') :
    c'.hashFunction = c.hashFunction ∧ c'.connections.length = c.connections.length ∧
      ∀ i p, c.connections[i]? = some p → ∃ p', c'.connections[i]? = some p' ∧
        ((xs.filter fun x => idx x = i).mapM f) p = .ok (resultsAt idx i xs rs) p' := by
  induction xs generalizing c rs with
  | nil =>
    cases h
    exact ⟨rfl, rfl, fun i p hp => ⟨p, hp, rfl⟩⟩
  | cons x xs ih =>
    obtain ⟨r, c₁, rs', hx, hxs, rfl⟩ := EStateM.mapM_cons_ok.1 h
    obtain ⟨p₀, p₁, hp₀, hf, rfl⟩ := onPool_ok hx
    obtain ⟨hhash, hlen, hpools⟩ := ih hxs
    refine ⟨hhash, by simpa using hlen, fun i p hp => ?_⟩
    by_cases hi : idx x = i
    · subst hi
      rw [hp₀] at hp
      cases hp
      obtain ⟨p', hp', hrun⟩ := hpools (idx x) p₁ (by simp [List.getElem?_set, (List.getElem?_eq_some_iff.1 hp₀).1])
      refine ⟨p', hp', ?_⟩
      rw [filter_cons_self]
      exact EStateM.mapM_cons_ok.2 ⟨r, p₁, _, hf, hrun, by rw [resultsAt_cons, if_pos rfl]⟩
    · obtain ⟨p', hp', hrun⟩ := hpools i p (by simpa [List.getElem?_set_ne hi] using hp)
      refine ⟨p', hp', ?_⟩
      simpa [hi, resultsAt_cons] using hrun

theorem exists_pools {R : Nat → P → P → Prop} :
    ∀ {ps : List P}, (∀ i p, ps[i]? = some p → ∃ p', R i p p') →
      ∃ qs : List P, qs.length = ps.length ∧ ∀ i p, ps[i]? = some p → ∃ p', qs[i]? = some p' ∧ R i p p'
  | [], _ => ⟨[], rfl, fun _ _ h => by simp at h⟩
  | p :: ps, h => by
    obtain ⟨p', hp'⟩ := h 0 p (List.getElem?_cons_zero)
    obtain ⟨qs, hl, hqs⟩ := exists_pools (R := fun i => R (i + 1))
      fun i q (hq : ps[i]? = some q) => h (i + 1) q (by rwa [List.getElem?_cons_succ])
    refine ⟨p' :: qs, by simp [hl], ?_⟩
    rintro (_ | i) q hq
    · cases List.getElem?_cons_zero.symm.trans hq
      exact ⟨p', List.getElem?_cons_zero, hp'⟩
    · rw [List.getElem?_cons_succ] at hq ⊢
      exact hqs i q hq

theorem mapM_onPool_join {xs : List β} {c : Client P} {qs : List P}
    (hin : ∀ x ∈ xs, idx x < c.connections.length) (hlen : qs.length = c.connections.length)
    (hrun : ∀ i p, c.connections[i]? = some p → ∃ rsi p', qs[i]? = some p' ∧
      ((xs.filter fun x => idx x = i).mapM f) p = .ok rsi p') :
    ∃ rs, (xs.mapM fun x => onPool (idx x) (f x)) c = .ok rs { c with connections := qs } := by
  induction xs generalizing c with
  | nil =>
    refine ⟨[], ?_⟩
    have hqs : qs = c.connections := List.ext_getElem? fun i => by
      cases hp : c.connections[i]? with
      | none => rw [List.getElem?_eq_none (hlen ▸ List.getElem?_eq_none_iff.1 hp)]
      | some p =>
        obtain ⟨rsi, p', hq, hr⟩ := hrun i p hp
        cases hr
        exact hq
    rw [hqs]
    rfl
  | cons x xs ih =>
    have hx : idx x < c.connections.length := hin x (List.mem_cons_self _ _)
    obtain ⟨rsi, p', hq, hfirst⟩ := hrun (idx x) _ (List.getElem?_eq_getElem hx)
    rw [filter_cons_self] at hfirst
    obtain ⟨r₀, p₁, rest, hf, hrest, -⟩ := EStateM.mapM_cons_ok.1 hfirst
    obtain ⟨rs', hxs⟩ := ih (c := { c with connections := c.connections.set (idx x) p₁ })
      (fun y hy => by simpa using hin y (List.mem_cons_of_mem _ hy)) (by simpa using hlen)
      (fun i p hp => by
        by_cases hi : idx x = i
        · subst hi
          simp only [List.getElem?_set_self hx, Option.some.injEq] at hp
          subst hp
          exact ⟨rest, p', hq, hrest⟩
        · rw [List.getElem?_set_ne hi] at hp
          simpa [hi] using hrun i p hp)
    exact ⟨r₀ :: rs', EStateM.mapM_cons_ok.2
      ⟨r₀, _, rs', onPool_of (List.getElem?_eq_getElem hx) hf, hxs, rfl⟩⟩

end Client

end Memcache
