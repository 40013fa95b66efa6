/-
**Chained hashing: equal digests mean equal inputs, or an explicit failure of the hash.**

An accumulator is replaced, entry by entry, by the hash of a block built from it and the entry.

* `digest` is the final accumulator, `blocks` the blocks hashed on the way.
* `digest_eq`: with an injective block, equal digests of two inputs give equal inputs, or two
  different blocks with one hash, or a block whose hash is the initial accumulator. The proof walks
  both inputs back from their ends.
-/

import Mathlib

namespace ChainHash

variable {A E B : Type} (hash : B → A) (block : A → E → B)

def digest (start : A) (entries : List E) : A :=
  entries.foldl (fun acc entry => hash (block acc entry)) start

/-- The blocks that `digest` hashes, in order. -/
def blocks (start : A) : List E → List B
  | [] => []
  | entry :: entries => block start entry :: blocks (hash (block start entry)) entries

theorem digest_append (start : A) (first second : List E) :
    digest hash block start (first ++ second) =
      digest hash block (digest hash block start first) second :=
  List.foldl_append

theorem blocks_append (start : A) (first second : List E) :
    blocks hash block start (first ++ second) =
      blocks hash block start first ++ blocks hash block (digest hash block start first) second := by
  induction first generalizing start with
  | nil => rfl
  | cons entry first ih =>
    rw [List.cons_append, blocks, blocks, ih, List.cons_append]
    rfl

theorem digest_snoc (start : A) (entries : List E) (entry : E) :
    digest hash block start (entries ++ [entry]) =
      hash (block (digest hash block start entries) entry) :=
  digest_append hash block start entries [entry]

theorem blocks_snoc (start : A) (entries : List E) (entry : E) :
    blocks hash block start (entries ++ [entry]) =
      blocks hash block start entries ++ [block (digest hash block start entries) entry] :=
  blocks_append hash block start entries [entry]

/-- Two lists of blocks show a failure of the hash: a collision between them, or a block that hashes
to the initial accumulator. -/
def Failure (start : A) (first second : List B) : Prop :=
  (∃ one ∈ first, ∃ other ∈ second, one ≠ other ∧ hash one = hash other) ∨
    ∃ one ∈ first ++ second, hash one = start

variable {hash block}

theorem Failure.append {start : A} {first second more more' : List B}
    (failure : Failure hash start first second) :
    Failure hash start (first ++ more) (second ++ more') := by
  rcases failure with ⟨one, memberOne, other, memberOther, collide⟩ | ⟨one, member, zero⟩
  · exact .inl ⟨one, List.mem_append_left _ memberOne, other, List.mem_append_left _ memberOther,
      collide⟩
  · refine .inr ⟨one, ?_, zero⟩
    simp only [List.mem_append] at member ⊢
    tauto

/-- **Equal digests mean equal inputs, or an explicit failure of the hash.** -/
theorem digest_eq (injective : ∀ acc acc' entry entry', block acc entry = block acc' entry' →
      acc = acc' ∧ entry = entry') (start : A) (first second : List E)
    (equal : digest hash block start first = digest hash block start second) :
    first = second ∨
      Failure hash start (blocks hash block start first) (blocks hash block start second) := by
  induction first using List.reverseRecOn generalizing second with
  | nil =>
    rcases List.eq_nil_or_concat' second with rfl | ⟨second, entry, rfl⟩
    · exact .inl rfl
    · rw [digest_snoc] at equal
      refine .inr (.inr ⟨_, ?_, equal.symm⟩)
      rw [blocks_snoc]
      exact List.mem_append_right _ (List.mem_append_right _ (List.mem_singleton_self _))
  | append_singleton first entry ih =>
    rcases List.eq_nil_or_concat' second with rfl | ⟨second, entry', rfl⟩
    · rw [digest_snoc] at equal
      refine .inr (.inr ⟨_, ?_, equal⟩)
      rw [blocks_snoc]
      exact List.mem_append_left _ (List.mem_append_right _ (List.mem_singleton_self _))
    · rw [digest_snoc, digest_snoc] at equal
      rw [blocks_snoc, blocks_snoc]
      by_cases same : block (digest hash block start first) entry =
          block (digest hash block start second) entry'
      · obtain ⟨earlier, rfl⟩ := injective _ _ _ _ same
        rcases ih second earlier with rfl | failure
        · exact .inl rfl
        · exact .inr failure.append
      · exact .inr (.inl ⟨_, List.mem_append_right _ (List.mem_singleton_self _), _,
          List.mem_append_right _ (List.mem_singleton_self _), same, equal⟩)

end ChainHash
