import Mathlib.Data.List.Basic
import Mathlib.Algebra.Group.Nat.Basic

/-!
# Byte strings

The text protocol works on `String`s that are byte strings on the wire. Here they are lists of
bytes, with the few `str` functions the protocol code calls, and the `Display` and `FromStr` of
Rust's unsigned integers.
-/

namespace Memcache

abbrev Bytes := List UInt8

def ascii (s : String) : Bytes := s.toList.map Char.toUInt8

def crlf : Bytes := ascii "\r\n"

theorem crlf_eq : crlf = [13, 10] := rfl

def space : UInt8 := 32

def startsWith (s : Bytes) (p : String) : Bool := (ascii p).isPrefixOf s

def trimStartMatchesAux (p : Bytes) : Nat → Bytes → Bytes
  | 0, s => s
  | fuel + 1, s => if !p.isEmpty && p.isPrefixOf s then trimStartMatchesAux p fuel (s.drop p.length) else s

/-- `str::trim_start_matches` with a string pattern: every leading copy of `p` is removed. -/
def trimStartMatches (p s : Bytes) : Bytes := trimStartMatchesAux p s.length s

def trimEndMatches (p s : Bytes) : Bytes := (trimStartMatches p.reverse s.reverse).reverse

/-- `str::split(" ")`. -/
def splitSpace (s : Bytes) : List Bytes := s.splitOn space

def joinSpace (parts : List Bytes) : Bytes := [space].intercalate parts

@[simp] theorem joinSpace_nil : joinSpace [] = [] := rfl

@[simp] theorem joinSpace_singleton (a : Bytes) : joinSpace [a] = a := by
  simp [joinSpace, List.intercalate]

@[simp] theorem joinSpace_cons_cons (a b : Bytes) (l : List Bytes) :
    joinSpace (a :: b :: l) = a ++ space :: joinSpace (b :: l) := by
  simp [joinSpace, List.intercalate, List.intersperse]

theorem trimStartMatchesAux_of_not_prefix {p s : Bytes} (h : p.isPrefixOf s = false) (fuel : Nat) :
    trimStartMatchesAux p fuel s = s := by
  cases fuel <;> simp [trimStartMatchesAux, h]

theorem trimEndMatches_crlf_of_not_mem {s : Bytes} (h : 10 ∉ s) : trimEndMatches crlf s = s := by
  have : crlf.reverse.isPrefixOf s.reverse = false := by
    rw [crlf_eq]
    cases hs : s.reverse with
    | nil => rfl
    | cons b t =>
      have hb : b ≠ 10 := fun hb => h (List.mem_reverse.1 (hs ▸ hb ▸ List.mem_cons_self b t))
      simp [List.isPrefixOf, Ne.symm hb]
  simp [trimEndMatches, trimStartMatches, trimStartMatchesAux_of_not_prefix this]

/-! ## Unsigned integers -/

def digit (d : Nat) : UInt8 := (48 + d).toUInt8

def isDigit (b : UInt8) : Bool := 48 ≤ b.toNat && b.toNat ≤ 57

def decimalAux : Nat → Nat → Bytes → Bytes
  | 0, _, acc => acc
  | fuel + 1, n, acc => if n < 10 then digit n :: acc else decimalAux fuel (n / 10) (digit (n % 10) :: acc)

/-- `Display` of an unsigned integer: its decimal digits, with no leading zero. -/
def decimal (n : Nat) : Bytes := decimalAux (n + 1) n []

def digitsValue (ds : Bytes) : Option Nat :=
  ds.foldl (fun acc b => acc.bind fun v => if isDigit b then some (10 * v + (b.toNat - 48)) else none)
    (some 0)

/-- `str::parse` for an unsigned integer type of `bound` values: an optional `+`, then at least
one digit, and no overflow. -/
def parseUnsigned (bound : Nat) (s : Bytes) : Option Nat :=
  let digits := if s.head? = some 43 then s.tail else s
  if digits = [] then none else (digitsValue digits).filter (· < bound)

def parseU32 (s : Bytes) : Option UInt32 := (parseUnsigned UInt32.size s).map UInt32.ofNat

def parseU64 (s : Bytes) : Option UInt64 := (parseUnsigned UInt64.size s).map UInt64.ofNat

/-- `usize` is 64 bits wide on the targets the protocol code is run on. -/
def parseUsize (s : Bytes) : Option Nat := parseUnsigned (2 ^ 64) s

theorem digit_toNat {d : Nat} (h : d < 10) : (digit d).toNat = 48 + d := by
  simp [digit, Nat.toUInt8, UInt8.toNat, UInt8.ofNat]; omega

theorem isDigit_digit {d : Nat} (h : d < 10) : isDigit (digit d) := by
  simp [isDigit, digit_toNat h]; omega

theorem decimalAux_fuel {f₁ f₂ n : Nat} (h₁ : n < f₁) (h₂ : n < f₂) (acc : Bytes) :
    decimalAux f₁ n acc = decimalAux f₂ n acc := by
  induction f₁ generalizing n f₂ acc with
  | zero => omega
  | succ f₁ ih =>
    obtain ⟨f₂, rfl⟩ : ∃ f, f₂ = f + 1 := ⟨f₂ - 1, by omega⟩
    simp only [decimalAux]
    split
    · rfl
    · exact ih (by omega) (by omega) _

theorem decimalAux_acc (fuel n : Nat) (acc : Bytes) :
    decimalAux fuel n acc = decimalAux fuel n [] ++ acc := by
  induction fuel generalizing n acc with
  | zero => rfl
  | succ fuel ih =>
    simp only [decimalAux]
    split
    · rfl
    · rw [ih, ih _ [_]]; simp

theorem decimal_eq (n : Nat) :
    decimal n = if n < 10 then [digit n] else decimal (n / 10) ++ [digit (n % 10)] := by
  unfold decimal
  rw [decimalAux]
  split
  · rfl
  · rw [decimalAux_acc, @decimalAux_fuel _ (n / 10 + 1) _ (by omega) (by omega)]

theorem decimal_ne_nil (n : Nat) : decimal n ≠ [] := by
  rw [decimal_eq]; split <;> simp

theorem isDigit_of_mem_decimal {n : Nat} {b : UInt8} (h : b ∈ decimal n) : isDigit b := by
  induction n using Nat.strong_induction_on with
  | _ n ih =>
    rw [decimal_eq] at h
    split at h
    · rw [List.mem_singleton.1 h]; exact isDigit_digit ‹_›
    · rcases List.mem_append.1 h with h | h
      · exact ih _ (by omega) h
      · rw [List.mem_singleton.1 h]; exact isDigit_digit (Nat.mod_lt _ (by omega))

theorem digitsValue_append_one (ds : Bytes) (d : UInt8) :
    digitsValue (ds ++ [d]) =
      (digitsValue ds).bind fun v => if isDigit d then some (10 * v + (d.toNat - 48)) else none := by
  simp [digitsValue, List.foldl_append]

theorem digitsValue_decimal (n : Nat) : digitsValue (decimal n) = some n := by
  induction n using Nat.strong_induction_on with
  | _ n ih =>
    rw [decimal_eq]
    split
    · simp [digitsValue, isDigit_digit ‹_›, digit_toNat ‹_›]
    · have h := Nat.mod_lt n (show 10 > 0 by omega)
      rw [digitsValue_append_one, ih _ (by omega)]
      simp [isDigit_digit h, digit_toNat h]
      omega

theorem digitsValue_isDigit {ds : Bytes} {v : Nat} (h : digitsValue ds = some v) :
    ∀ b ∈ ds, isDigit b := by
  induction ds using List.reverseRecOn generalizing v with
  | nil => simp
  | append_singleton ds d ih =>
    rw [digitsValue_append_one] at h
    cases hds : digitsValue ds with
    | none => simp [hds] at h
    | some w =>
      simp only [hds, Option.bind_some] at h
      split at h
      · intro b hb
        rcases List.mem_append.1 hb with hb | hb
        · exact ih hds b hb
        · rwa [List.mem_singleton.1 hb]
      · cases h

theorem parseUnsigned_mem {bound : Nat} {s : Bytes} {v : Nat} (h : parseUnsigned bound s = some v) :
    ∀ b ∈ s, isDigit b ∨ b = 43 := by
  cases s with
  | nil => simp [parseUnsigned] at h
  | cons c t =>
    by_cases hc : c = 43
    · subst hc
      simp only [parseUnsigned, List.head?_cons, List.tail_cons, if_true] at h
      split at h
      · cases h
      · intro b hb
        rcases List.mem_cons.1 hb with rfl | hb
        · exact .inr rfl
        · exact .inl (digitsValue_isDigit (Option.filter_eq_some.1 h).1 b hb)
    · simp only [parseUnsigned, List.head?_cons, Option.some.injEq, hc, if_false,
        reduceCtorEq] at h
      exact fun b hb => .inl (digitsValue_isDigit (Option.filter_eq_some.1 h).1 b hb)

theorem parseUnsigned_decimal {bound n : Nat} (h : n < bound) :
    parseUnsigned bound (decimal n) = some n := by
  have head : (decimal n).head? ≠ some 43 := by
    intro e
    exact absurd (isDigit_of_mem_decimal (List.mem_of_mem_head? e)) (by decide)
  simp [parseUnsigned, head, decimal_ne_nil, digitsValue_decimal, h]

theorem parseUnsigned_ne_nil {bound : Nat} {s : Bytes} {v : Nat} (h : parseUnsigned bound s = some v) :
    s ≠ [] := by
  rintro rfl; simp [parseUnsigned] at h

theorem parseU32_decimal (x : UInt32) : parseU32 (decimal x.toNat) = some x := by
  simp [parseU32, parseUnsigned_decimal x.toNat_lt_size]
  exact UInt32.toNat.inj (UInt32.toNat_ofNat_of_lt x.toNat_lt_size)

theorem parseUsize_decimal {n : Nat} (h : n < 2 ^ 64) : parseUsize (decimal n) = some n :=
  parseUnsigned_decimal h

theorem parseU64_decimal (x : UInt64) : parseU64 (decimal x.toNat) = some x := by
  simp [parseU64, parseUnsigned_decimal x.toNat_lt_size]
  exact UInt64.toNat.inj (UInt64.toNat_ofNat_of_lt x.toNat_lt_size)

end Memcache
