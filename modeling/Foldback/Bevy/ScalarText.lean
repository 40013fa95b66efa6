/-
**How `{:?}` renders integers, bools and strings.**

* `Scalar.text`: integers in decimal, bools as words, strings in double quotes with quotes and
  backslashes escaped. `plain` says which other characters are printed as they are; the code of any
  other is printed in hexadecimal.
* `prefixFree_escapeDebug`: no escaped character begins another.
* `text_apart`: **two scalars of one type, each rendered with a closing bracket behind, stay apart.**
-/

import Foldback.Bevy.Steps

namespace Foldback.Bevy

open PrefixCode

variable {ω : Type}

/-! ### Characters of a string -/

/-- The letter after the backslash, where there is one for the character. -/
def shortEscape (c : Char) : Option Char :=
  if c = '\x00' then some '0'
  else if c = '\t' then some 't'
  else if c = '\r' then some 'r'
  else if c = '\n' then some 'n'
  else if c = '"' then some '"'
  else if c = '\\' then some '\\'
  else none

def hexadecimal (n : ℕ) : List Char := Nat.toDigits 16 n

/-- A character of a string as it is printed. -/
def escapeDebug (plain : Char → Bool) (c : Char) : List Char :=
  match shortEscape c with
  | some letter => ['\\', letter]
  | none => if plain c then [c] else '\\' :: 'u' :: '{' :: (hexadecimal c.toNat ++ ['}'])

/-- The character that a letter after a backslash stands for. -/
def unescape (letter : Char) : Char :=
  if letter = '0' then '\x00'
  else if letter = 't' then '\t'
  else if letter = 'r' then '\r'
  else if letter = 'n' then '\n'
  else letter

theorem shortEscape_cases {c letter : Char} (short : shortEscape c = some letter) :
    c = unescape letter ∧ letter ≠ 'u' := by
  unfold shortEscape at short
  split_ifs at short with zero tab cr lf quote backslash
  all_goals
    cases short
    subst c
    decide

theorem digitChar_injective : ∀ a < 16, ∀ b < 16, Nat.digitChar a = Nat.digitChar b → a = b := by
  decide

theorem digitChar_ne_brace : ∀ a < 16, Nat.digitChar a ≠ '}' := by
  decide

theorem hexadecimal_cons (n : ℕ) (large : 16 ≤ n) :
    hexadecimal n = hexadecimal (n / 16) ++ [Nat.digitChar (n % 16)] :=
  Nat.toDigits_of_base_le (by decide) large

theorem hexadecimal_small {n : ℕ} (small : n < 16) : hexadecimal n = [Nat.digitChar n] :=
  Nat.toDigits_of_lt_base small

theorem brace_not_mem_hexadecimal (n : ℕ) : '}' ∉ hexadecimal n := by
  induction n using Nat.strong_induction_on with
  | _ n ih =>
    by_cases small : n < 16
    · rw [hexadecimal_small small, List.mem_singleton]
      exact (digitChar_ne_brace n small).symm
    · rw [hexadecimal_cons n (by omega), List.mem_append, List.mem_singleton]
      rintro (front | last)
      · exact ih (n / 16) (by omega) front
      · exact digitChar_ne_brace (n % 16) (by omega) last.symm

theorem hexadecimal_ne_singleton {n : ℕ} (large : 16 ≤ n) (c : Char) : hexadecimal n ≠ [c] := by
  intro same
  have length := congrArg List.length same
  rw [hexadecimal_cons n large, List.length_append] at length
  exact Nat.toDigits_ne_nil (List.length_eq_zero_iff.mp (Nat.succ.inj length))

theorem hexadecimal_injective {m n : ℕ} (same : hexadecimal m = hexadecimal n) : m = n := by
  induction m using Nat.strong_induction_on generalizing n with
  | _ m ih =>
    by_cases small : m < 16
    · by_cases small' : n < 16
      · rw [hexadecimal_small small, hexadecimal_small small'] at same
        exact digitChar_injective m small n small' (List.cons.inj same).1
      · rw [hexadecimal_small small] at same
        exact absurd same.symm (hexadecimal_ne_singleton (by omega) _)
    · by_cases small' : n < 16
      · rw [hexadecimal_small small'] at same
        exact absurd same (hexadecimal_ne_singleton (by omega) _)
      · rw [hexadecimal_cons m (by omega), hexadecimal_cons n (by omega)] at same
        obtain ⟨front, last⟩ := List.append_inj' same rfl
        have high := ih (m / 16) (by omega) front
        have low := digitChar_injective (m % 16) (by omega) (n % 16) (by omega) (List.cons.inj last).1
        omega

/-- How an escaped character begins: with a letter, as itself, or with its code. -/
theorem escapeDebug_cases (plain : Char → Bool) (c : Char) :
    (∃ letter, shortEscape c = some letter ∧ escapeDebug plain c = ['\\', letter]) ∨
      (c ≠ '\\' ∧ c ≠ '"' ∧ escapeDebug plain c = [c]) ∨
      escapeDebug plain c = '\\' :: 'u' :: '{' :: (hexadecimal c.toNat ++ ['}']) := by
  rw [escapeDebug]
  rcases short : shortEscape c with _ | letter
  · by_cases printed : plain c = true
    · refine Or.inr (Or.inl ⟨?_, ?_, if_pos printed⟩)
      · rintro rfl
        cases short
      · rintro rfl
        cases short
    · exact Or.inr (Or.inr (if_neg printed))
  · exact Or.inl ⟨letter, rfl, rfl⟩

/-- **No escaped character begins another.** -/
theorem prefixFree_escapeDebug (plain : Char → Bool) : PrefixFree (escapeDebug plain) := by
  intro a b s t same
  rcases escapeDebug_cases plain a with ⟨letter, short, escaped⟩ | ⟨noSlash, _, escaped⟩ | escaped
  · rcases escapeDebug_cases plain b with ⟨letter', short', escaped'⟩ | ⟨noSlash', _, escaped'⟩ | escaped'
    · rw [escaped, escaped'] at same
      obtain rfl := (List.cons.inj (List.cons.inj same).2).1
      rw [(shortEscape_cases short).1, (shortEscape_cases short').1]
    · rw [escaped, escaped'] at same
      exact absurd (List.cons.inj same).1.symm noSlash'
    · rw [escaped, escaped'] at same
      exact absurd (List.cons.inj (List.cons.inj same).2).1 (shortEscape_cases short).2
  · rcases escapeDebug_cases plain b with ⟨letter', short', escaped'⟩ | ⟨noSlash', _, escaped'⟩ | escaped'
    · rw [escaped, escaped'] at same
      exact absurd (List.cons.inj same).1 noSlash
    · rw [escaped, escaped'] at same
      exact (List.cons.inj same).1
    · rw [escaped, escaped'] at same
      exact absurd (List.cons.inj same).1 noSlash
  · rcases escapeDebug_cases plain b with ⟨letter', short', escaped'⟩ | ⟨noSlash', _, escaped'⟩ | escaped'
    · rw [escaped, escaped'] at same
      exact absurd (List.cons.inj (List.cons.inj same).2).1.symm (shortEscape_cases short').2
    · rw [escaped, escaped'] at same
      exact absurd (List.cons.inj same).1.symm noSlash'
    · rw [escaped, escaped'] at same
      have codes := (List.cons.inj (List.cons.inj (List.cons.inj same).2).2).2
      have digits : hexadecimal a.toNat = hexadecimal b.toNat :=
        eq_of_closed (s := s) (t := t) (brace_not_mem_hexadecimal _) (brace_not_mem_hexadecimal _)
          (by simpa using codes)
      exact Char.toNat_inj.mp (hexadecimal_injective digits)

theorem escapeDebug_begins (plain : Char → Bool) (c : Char) :
    ∃ first rest, escapeDebug plain c = first :: rest ∧ first ≠ '"' := by
  rcases escapeDebug_cases plain c with ⟨letter, _, escaped⟩ | ⟨_, noQuote, escaped⟩ | escaped
  · exact ⟨_, _, escaped, by decide⟩
  · exact ⟨_, _, escaped, noQuote⟩
  · exact ⟨_, _, escaped, by decide⟩

/-! ### Scalars -/

/-- The types of keys and elements whose renderings are described here. -/
inductive ScalarTy
  | int (ty : IntTy)
  | size (signed : Bool)
  | bool
  | string
  deriving DecidableEq, Repr

inductive Scalar
  | int (ty : IntTy) (value : BitVec (8 * ty.bytes))
  | size (signed : Bool) (value : BitVec 64)
  | bool (value : Bool)
  | string (value : String)

def Scalar.ty : Scalar → ScalarTy
  | .int ty _ => .int ty
  | .size signed _ => .size signed
  | .bool _ => .bool
  | .string _ => .string

/-- The scalar as a reflected value. -/
def Scalar.leaf : Scalar → ReflectRef ω
  | .int ty value => .leaf (.int ty value)
  | .size signed value => .leaf (.size signed value)
  | .bool value => .leaf (.bool value)
  | .string value => .leaf (.string value)

def decimal {w : ℕ} (signed : Bool) (value : BitVec w) : String :=
  if signed then toString value.toInt else toString value.toNat

/-- What `{:?}` prints. -/
def Scalar.text (plain : Char → Bool) : Scalar → String
  | .int ty value => decimal ty.signed value
  | .size signed value => decimal signed value
  | .bool value => if value then "true" else "false"
  | .string value => String.ofList ('"' :: (value.toList.flatMap (escapeDebug plain) ++ ['"']))

theorem decimal_injective {w : ℕ} {signed : Bool} {value value' : BitVec w}
    (same : decimal signed value = decimal signed value') : value = value' := by
  cases signed with
  | false => exact BitVec.toNat_inj.mp (Nat.repr_injective same)
  | true => exact BitVec.toInt_inj.mp (Int.repr_injective same)

theorem not_mem_decimal {w : ℕ} {close : Char} (noDigit : close.isDigit = false) (noMinus : close ≠ '-')
    (signed : Bool) (value : BitVec w) : close ∉ (decimal signed value).toList := by
  intro member
  have free : ∀ n : ℕ, close ∉ (toString n).toList := by
    intro n inside
    rw [isDigit_of_mem inside] at noDigit
    cases noDigit
  cases signed with
  | false => exact free _ member
  | true =>
    change close ∈ (Int.repr value.toInt).toList at member
    rcases integer : value.toInt with n | n
    · rw [integer] at member
      exact free n member
    · rw [integer, Int.repr.eq_def, String.toList_append, List.mem_append] at member
      rcases member with minus | digits
      · exact noMinus (List.mem_singleton.mp minus)
      · exact free (n + 1) digits

/-- **Two scalars of one type stay apart**, each with its closing bracket. -/
theorem text_apart (plain : Char → Bool) {scalar scalar' : Scalar} (types : scalar.ty = scalar'.ty)
    (differ : scalar ≠ scalar') {close : Char} (bracket : close ∈ [']', '}']) :
    ClosedApart close (scalar.text plain) (scalar'.text plain) := by
  intro s t same
  have noDigit : close.isDigit = false ∧ close ≠ '-' := by
    rcases List.mem_cons.mp bracket with rfl | brace
    · exact ⟨rfl, by decide⟩
    · cases List.mem_singleton.mp brace
      exact ⟨rfl, by decide⟩
  cases scalar with
  | int ty value =>
    cases scalar' with
    | int ty' value' =>
      cases types
      have texts := eq_of_closed (not_mem_decimal noDigit.1 noDigit.2 ty.signed value)
        (not_mem_decimal noDigit.1 noDigit.2 ty.signed value') same
      rw [decimal_injective (String.toList_inj.mp texts)] at differ
      exact differ rfl
    | _ => cases types
  | size signed value =>
    cases scalar' with
    | size signed' value' =>
      cases types
      have texts := eq_of_closed (not_mem_decimal noDigit.1 noDigit.2 signed value)
        (not_mem_decimal noDigit.1 noDigit.2 signed value') same
      rw [decimal_injective (String.toList_inj.mp texts)] at differ
      exact differ rfl
    | _ => cases types
  | bool value =>
    cases scalar' with
    | bool value' =>
      -- The words differ in their first letters.
      cases value <;> cases value' <;> first | exact differ rfl | simp [Scalar.text] at same
    | _ => cases types
  | string value =>
    cases scalar' with
    | string value' =>
      simp only [Scalar.text, String.toList_ofList, List.cons_append, List.append_assoc,
        List.cons.injEq, true_and] at same
      have chars := (prefixFree_escapeDebug plain).eq_of_closed (escapeDebug_begins plain) same
      rw [String.toList_inj.mp chars] at differ
      exact differ rfl
    | _ => cases types

end Foldback.Bevy
