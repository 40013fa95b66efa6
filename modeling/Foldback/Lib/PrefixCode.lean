/-
**Texts that can be told apart by their beginnings.**

* `Apart follows first second`: whatever may follow them, the texts stay different.
* `eq_of_free`: texts without an opening symbol end where the first one stands. `eq_of_closed`: so do
  texts that a closing symbol ends.
* `numeral_eq_of_closed`: decimal numerals end where a symbol stands that is no digit.
* `PrefixFree code`: no code word begins another. `PrefixFree.eq_of_closed`: **sequences of code words
  end where a symbol stands that begins none.**
* `Delimits R first second`: whatever is behind the two texts, `R` holds if all is equal, and then the
  same is behind them. Sequences of such texts are such a text (`delimits_flatMap`).
-/

import Mathlib

namespace PrefixCode

variable {α β : Type}

/-! ### Continuations -/

/-- No two texts that may follow make the texts equal. -/
def Apart (follows : List α → Prop) (first second : List α) : Prop :=
  ∀ s t, follows s → follows t → first ++ s ≠ second ++ t

variable {follows : List α → Prop} {first second : List α}

theorem Apart.symm (apart : Apart follows first second) : Apart follows second first :=
  fun s t followsS followsT same => apart t s followsT followsS same.symm

/-- A common front changes nothing. -/
theorem Apart.prepend (apart : Apart follows first second) (front : List α) :
    Apart follows (front ++ first) (front ++ second) := by
  intro s t followsS followsT same
  rw [List.append_assoc, List.append_assoc, List.append_right_inj] at same
  exact apart s t followsS followsT same

/-- The text is empty or begins with an opening symbol. -/
def Opens (opening : α → Prop) (text : List α) : Prop :=
  ∀ a ∈ text.head?, opening a

variable {opening : α → Prop}

/-- **Texts without an opening symbol end where the first one stands.** -/
theorem eq_of_free (free : ∀ a ∈ first, ¬ opening a) (free' : ∀ a ∈ second, ¬ opening a)
    {s t : List α} (opensS : Opens opening s) (opensT : Opens opening t)
    (same : first ++ s = second ++ t) : first = second ∧ s = t := by
  induction first generalizing second with
  | nil =>
    cases second with
    | nil => exact ⟨rfl, same⟩
    | cons b second =>
      rw [List.nil_append] at same
      exact absurd (opensS b (by rw [same]; rfl)) (free' b List.mem_cons_self)
  | cons a first ih =>
    cases second with
    | nil =>
      rw [List.nil_append] at same
      exact absurd (opensT a (by rw [← same]; rfl)) (free a List.mem_cons_self)
    | cons b second =>
      obtain ⟨rfl, rest⟩ := List.cons.inj same
      obtain ⟨rfl, equal⟩ := ih (fun c member => free c (List.mem_cons_of_mem _ member))
        (fun c member => free' c (List.mem_cons_of_mem _ member)) rest
      exact ⟨rfl, equal⟩

theorem apart_of_free (free : ∀ a ∈ first, ¬ opening a) (free' : ∀ a ∈ second, ¬ opening a)
    (differ : first ≠ second) : Apart (Opens opening) first second :=
  fun _ _ opensS opensT same => differ (eq_of_free free free' opensS opensT same).1

/-- **Texts that a closing symbol ends.** -/
theorem eq_of_closed {close : α} (free : close ∉ first) (free' : close ∉ second) {s t : List α}
    (same : first ++ close :: s = second ++ close :: t) : first = second := by
  have opens : ∀ rest : List α, Opens (fun a => a = close) (close :: rest) :=
    fun rest a member => (Option.some.inj member).symm
  have without : ∀ text : List α, close ∉ text → ∀ a ∈ text, ¬ a = close :=
    fun text free a member is => free (is ▸ member)
  exact (eq_of_free (without first free) (without second free') (opens s) (opens t) same).1

/-! ### Decimal numerals -/

theorem isDigit_of_mem {i : ℕ} {c : Char} (member : c ∈ (toString i).toList) : c.isDigit = true := by
  rw [Nat.toString_eq_repr, Nat.toList_repr] at member
  exact Nat.isDigit_of_mem_toDigits (by decide) (by decide) member

theorem toString_injective {i j : ℕ} (same : (toString i).toList = (toString j).toList) : i = j :=
  Nat.repr_injective (String.toList_inj.mp same)

/-- **Decimal numerals end where a symbol stands that is no digit.** -/
theorem numeral_eq_of_closed {close : Char} (noDigit : close.isDigit = false) {i j : ℕ}
    {s t : List Char} (same : (toString i).toList ++ close :: s = (toString j).toList ++ close :: t) :
    i = j := by
  have free : ∀ i : ℕ, close ∉ (toString i).toList := by
    intro i member
    rw [isDigit_of_mem member] at noDigit
    cases noDigit
  exact toString_injective (eq_of_closed (free i) (free j) same)

/-! ### Code words -/

/-- No code word begins another. -/
def PrefixFree (code : β → List α) : Prop :=
  ∀ a b s t, code a ++ s = code b ++ t → a = b

/-- **Sequences of code words end where a symbol stands that begins none.** -/
theorem PrefixFree.eq_of_closed {code : β → List α} (prefixFree : PrefixFree code) {close : α}
    (begins : ∀ b, ∃ a rest, code b = a :: rest ∧ a ≠ close) {xs ys : List β} {s t : List α}
    (same : xs.flatMap code ++ close :: s = ys.flatMap code ++ close :: t) : xs = ys := by
  have never : ∀ (b : β) (rest rest' : List α), close :: rest ≠ code b ++ rest' := by
    intro b rest rest' equal
    obtain ⟨a, tail, word, other⟩ := begins b
    rw [word, List.cons_append] at equal
    exact other (List.cons.inj equal).1.symm
  induction xs generalizing ys with
  | nil =>
    cases ys with
    | nil => rfl
    | cons y ys =>
      rw [List.flatMap_cons, List.append_assoc] at same
      exact absurd same (never y _ _)
  | cons x xs ih =>
    cases ys with
    | nil =>
      rw [List.flatMap_cons, List.append_assoc] at same
      exact absurd same.symm (never x _ _)
    | cons y ys =>
      rw [List.flatMap_cons, List.flatMap_cons, List.append_assoc, List.append_assoc] at same
      obtain rfl := prefixFree x y _ _ same
      rw [ih (List.append_cancel_left same)]

/-! ### Texts that delimit themselves -/

section Delimits

variable {P Q : Prop} {γ : Type}

/-- Equal texts, with anything behind them, are related, and the same is behind them. -/
def Delimits (R : Prop) (first second : List α) : Prop := ∀ s t, first ++ s = second ++ t → R ∧ s = t

theorem Delimits.imp {R : Prop} (delimits : Delimits P first second) (imp : P → R) :
    Delimits R first second :=
  fun s t same => (delimits s t same).imp_left imp

theorem delimits_of_length (lengths : first.length = second.length) (imp : first = second → P) :
    Delimits P first second :=
  fun _ _ same => (List.append_inj same lengths).imp_left imp

theorem Delimits.append {third fourth : List α} (delimits : Delimits P first second)
    (rest : P → Delimits Q third fourth) : Delimits (P ∧ Q) (first ++ third) (second ++ fourth) := by
  intro s t same
  rw [List.append_assoc, List.append_assoc] at same
  obtain ⟨holds, behind⟩ := delimits _ _ same
  obtain ⟨holds', same'⟩ := rest holds _ _ behind
  exact ⟨⟨holds, holds'⟩, same'⟩

/-- **Sequences of texts that delimit themselves do so**, if they are as long. -/
theorem delimits_flatMap {R : β → γ → Prop} {f : β → List α} {g : γ → List α} {items : List β}
    {items' : List γ}
    (each : List.Forall₂ (fun item item' => Delimits (R item item') (f item) (g item')) items items') :
    Delimits (List.Forall₂ R items items') (items.flatMap f) (items'.flatMap g) := by
  induction each with
  | nil => exact fun s t same => ⟨.nil, same⟩
  | cons here _ ih =>
    rw [List.flatMap_cons, List.flatMap_cons]
    exact (here.append fun _ => ih).imp fun both => .cons both.1 both.2

/-- Neither text begins the other, unless they are related. -/
theorem Delimits.not_prefix (delimits : Delimits P first second) (unrelated : ¬ P) :
    ¬ first <+: second ∧ ¬ second <+: first := by
  constructor
  · rintro ⟨behind, rfl⟩
    exact unrelated (delimits behind [] (List.append_nil _).symm).1
  · rintro ⟨behind, rfl⟩
    exact unrelated (delimits [] behind (List.append_nil _)).1

end Delimits

end PrefixCode
