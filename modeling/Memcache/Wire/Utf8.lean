import Memcache.Wire.Bytes

/-!
# UTF-8

`BufRead::read_line` reads into a `String`, so it keeps the bytes of a line only when they are
UTF-8. `validUtf8` is the check of `str::from_utf8` (`run_utf8_validation`): the well-formed
sequences, with no overlong form, no surrogate and nothing above U+10FFFF.
-/

namespace Memcache

def isContinuation (b : UInt8) : Bool := 0x80 ≤ b.toNat && b.toNat ≤ 0xBF

/-- The second byte of a three- or four-byte sequence, as the match of `run_utf8_validation`
on its first two bytes allows it. -/
def secondByteOk (first second : UInt8) : Bool :=
  match first.toNat with
  | 0xE0 => 0xA0 ≤ second.toNat && second.toNat ≤ 0xBF
  | 0xED => 0x80 ≤ second.toNat && second.toNat ≤ 0x9F
  | 0xF0 => 0x90 ≤ second.toNat && second.toNat ≤ 0xBF
  | 0xF4 => 0x80 ≤ second.toNat && second.toNat ≤ 0x8F
  | _ => isContinuation second

def utf8CharWidth (b : UInt8) : Nat :=
  if b.toNat < 0x80 then 1
  else if 0xC2 ≤ b.toNat ∧ b.toNat ≤ 0xDF then 2
  else if 0xE0 ≤ b.toNat ∧ b.toNat ≤ 0xEF then 3
  else if 0xF0 ≤ b.toNat ∧ b.toNat ≤ 0xF4 then 4
  else 0

def validUtf8 : Bytes → Bool
  | [] => true
  | b :: bs =>
    match utf8CharWidth b, bs with
    | 1, bs => validUtf8 bs
    | 2, c :: bs => isContinuation c && validUtf8 bs
    | 3, c :: d :: bs => secondByteOk b c && isContinuation d && validUtf8 bs
    | 4, c :: d :: e :: bs => secondByteOk b c && isContinuation d && isContinuation e && validUtf8 bs
    | _, _ => false

example : validUtf8 [0xE2, 0x82, 0xAC] ∧ !validUtf8 [0xC0, 0x80] ∧ !validUtf8 [0xED, 0xA0, 0x80] := by decide

theorem validUtf8_append {xs ys : Bytes} (hx : validUtf8 xs) (hy : validUtf8 ys) : validUtf8 (xs ++ ys) := by
  induction xs using validUtf8.induct with
  | case1 => exact hy
  | case2 b bs hb ih => rw [validUtf8.eq_2 _ _ hb] at hx; rw [List.cons_append, validUtf8.eq_2 _ _ hb]; exact ih hx
  | case3 _ _ _ hb ih | case4 _ _ _ _ hb ih | case5 _ _ _ _ _ hb ih =>
    simp only [validUtf8, hb, Bool.and_eq_true, List.cons_append] at hx ⊢
    exact ⟨hx.1, ih hx.2⟩
  | case6 b bs h1 h2 h3 h4 => rw [validUtf8.eq_6 b bs h1 h2 h3 h4] at hx; cases hx

theorem validUtf8_of_ascii : ∀ {bs : Bytes}, (∀ b ∈ bs, b.toNat < 0x80) → validUtf8 bs
  | [], _ => rfl
  | b :: bs, h => by
    rw [validUtf8.eq_2 _ _ (if_pos (h b (List.mem_cons_self _ _)))]
    exact validUtf8_of_ascii fun x hx => h x (List.mem_cons_of_mem _ hx)

theorem validUtf8_joinSpace : ∀ {fs : List Bytes}, (∀ f ∈ fs, validUtf8 f) → validUtf8 (joinSpace fs)
  | [], _ => rfl
  | [f], h => by rw [joinSpace_singleton]; exact h f (List.mem_singleton_self f)
  | f :: g :: fs, h => by
    rw [joinSpace_cons_cons]
    refine validUtf8_append (h f (List.mem_cons_self _ _)) ?_
    rw [validUtf8.eq_2 _ _ (by decide)]
    exact validUtf8_joinSpace fun x hx => h x (List.mem_cons_of_mem _ hx)

theorem validUtf8_decimal (n : Nat) : validUtf8 (decimal n) :=
  validUtf8_of_ascii fun b hb => by
    have := isDigit_of_mem_decimal hb
    simp only [isDigit, Bool.and_eq_true, decide_eq_true_eq] at this
    omega

end Memcache
