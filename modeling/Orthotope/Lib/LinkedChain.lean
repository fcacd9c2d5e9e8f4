import Mathlib.Data.List.Basic

/-! Sequences that are stored as a chain of links.  `next` gives the successor of every node; the
lemmas say which links an operation on the sequence may change. -/

namespace LinkedChain

variable {α : Type}

/-- Following `next` from the head of `l` gives the nodes of `l`, and the last has no successor. -/
def Chain (next : α → Option α) : List α → Prop
  | [] => True
  | b :: l => next b = l.head? ∧ Chain next l

instance Chain.decidable [DecidableEq α] (next : α → Option α) :
    (l : List α) → Decidable (Chain next l)
  | [] => instDecidableTrue
  | b :: l =>
    have : Decidable (Chain next l) := Chain.decidable next l
    inferInstanceAs (Decidable (next b = l.head? ∧ Chain next l))

/-- The node reached from `b` by `n` links. -/
def follow (next : α → Option α) : Nat → α → Option α
  | 0, b => some b
  | n + 1, b => (next b).bind (follow next n)

variable {next next' : α → Option α}

theorem Chain.congr {l : List α} (h : Chain next l) (heq : ∀ b ∈ l, next' b = next b) :
    Chain next' l := by
  induction l with
  | nil => trivial
  | cons b l ih =>
    exact ⟨(heq b List.mem_cons_self).trans h.1,
      ih h.2 fun b' hb' => heq b' (List.mem_cons_of_mem _ hb')⟩

/-- A chain survives a change of one link that it does not use. -/
theorem Chain.update {l : List α} {x : α} (h : Chain next l)
    (heq : ∀ b ∈ l, b ≠ x → next' b = next b) (hx : x ∉ l) : Chain next' l :=
  h.congr fun b hb => heq b hb fun hbx => hx (hbx ▸ hb)

theorem Chain.cons {l : List α} {x : α} (h : Chain next l)
    (heq : ∀ b ∈ l, b ≠ x → next' b = next b) (hx : x ∉ l) (hnext : next' x = l.head?) :
    Chain next' (x :: l) :=
  ⟨hnext, h.update heq hx⟩

/-- Two chains become one when the last node of the first is linked to the head of the second. -/
theorem Chain.append {l l' : List α} {x : α} (h : Chain next l) (h' : Chain next l')
    (hlast : l.getLast? = some x) (hnodup : (l ++ l').Nodup)
    (heq : ∀ b ∈ l ++ l', b ≠ x → next' b = next b) (hnext : next' x = l'.head?) :
    Chain next' (l ++ l') := by
  induction l with
  | nil => cases hlast
  | cons b l ih =>
    obtain ⟨hb, hnd⟩ := List.nodup_cons.mp hnodup
    cases l with
    | nil =>
      obtain rfl : b = x := by simpa using hlast
      exact h'.cons (fun b' hb' => heq b' (List.mem_cons_of_mem _ hb')) hb hnext
    | cons b' l =>
      rw [List.getLast?_cons_cons] at hlast
      have hx : x ∈ b' :: l := List.mem_of_getLast? hlast
      have hne : b ≠ x := fun hbx => hb (List.mem_append.mpr (Or.inl (hbx ▸ hx)))
      exact ⟨(heq b List.mem_cons_self hne).trans h.1,
        ih h.2 hlast hnd fun b'' hb'' => heq b'' (List.mem_cons_of_mem _ hb'')⟩

/-- A chain is cut behind a node by clearing the link of that node. -/
theorem Chain.cut {l l' : List α} {x : α} (h : Chain next (l ++ l')) (hlast : l.getLast? = some x)
    (hnodup : (l ++ l').Nodup) (heq : ∀ b ∈ l ++ l', b ≠ x → next' b = next b)
    (hnext : next' x = none) : Chain next' l ∧ Chain next' l' := by
  induction l with
  | nil => cases hlast
  | cons b l ih =>
    obtain ⟨hb, hnd⟩ := List.nodup_cons.mp hnodup
    cases l with
    | nil =>
      obtain rfl : b = x := by simpa using hlast
      exact ⟨⟨hnext, trivial⟩,
        h.2.update (fun b' hb' => heq b' (List.mem_cons_of_mem _ hb')) hb⟩
    | cons b' l =>
      rw [List.getLast?_cons_cons] at hlast
      have hx : x ∈ b' :: l := List.mem_of_getLast? hlast
      have hne : b ≠ x := fun hbx => hb (List.mem_append.mpr (Or.inl (hbx ▸ hx)))
      obtain ⟨h1, h2⟩ := ih h.2 hlast hnd fun b'' hb'' => heq b'' (List.mem_cons_of_mem _ hb'')
      exact ⟨⟨(heq b List.mem_cons_self hne).trans h.1, h1⟩, h2⟩

/-- The link of the last node of a part of a chain leads to the rest. -/
theorem Chain.next_getLast {l l' : List α} {x : α} (h : Chain next (l ++ l'))
    (hlast : l.getLast? = some x) : next x = l'.head? := by
  induction l with
  | nil => cases hlast
  | cons b l ih =>
    cases l with
    | nil =>
      obtain rfl : b = x := by simpa using hlast
      exact h.1
    | cons b' l =>
      rw [List.getLast?_cons_cons] at hlast
      exact ih h.2 hlast

/-- Following a chain finds its nodes in order. -/
theorem Chain.follow_eq {l : List α} {b : α} (h : Chain next (b :: l)) {n : Nat}
    (hn : n < (b :: l).length) : follow next n b = (b :: l)[n]? := by
  induction n generalizing b l with
  | zero => rfl
  | succ n ih =>
    cases l with
    | nil => simp at hn
    | cons b' l =>
      rw [follow, h.1]
      exact ih h.2 (by simpa using hn)

/-! ### Families -/

/-- Sequences without common nodes, each of them stored as a chain in the same links. -/
structure Family {γ : Type} (next : α → Option α) (seqs : γ → List α) : Prop where
  chain : ∀ x, Chain next (seqs x)
  nodup : ∀ x, (seqs x).Nodup
  disjoint : ∀ x y, x ≠ y → (seqs x).Disjoint (seqs y)

/-- Some of the sequences are replaced by others, of nodes that are in none of the rest. -/
theorem Family.change {γ : Type} {seqs seqs' : γ → List α} (h : Family next seqs)
    (changed : γ → Prop) (hsame : ∀ x, ¬changed x → seqs' x = seqs x)
    (hnext : ∀ x, ¬changed x → ∀ b ∈ seqs x, next' b = next b)
    (hchain : ∀ x, changed x → Chain next' (seqs' x))
    (hnodup : ∀ x, changed x → (seqs' x).Nodup)
    (hnew : ∀ x, changed x → ∀ b ∈ seqs' x, ∀ y, ¬changed y → b ∉ seqs y)
    (hdisjoint : ∀ x y, changed x → changed y → x ≠ y → (seqs' x).Disjoint (seqs' y)) :
    Family next' seqs' := by
  refine ⟨fun x => ?_, fun x => ?_, fun x y hne b hx hy => ?_⟩
  · by_cases hx : changed x
    · exact hchain x hx
    · rw [hsame x hx]
      exact (h.chain x).congr (hnext x hx)
  · by_cases hx : changed x
    · exact hnodup x hx
    · rw [hsame x hx]
      exact h.nodup x
  · by_cases hcx : changed x
    · by_cases hcy : changed y
      · exact hdisjoint x y hcx hcy hne hx hy
      · rw [hsame y hcy] at hy
        exact hnew x hcx b hx y hcy hy
    · rw [hsame x hcx] at hx
      by_cases hcy : changed y
      · exact hnew y hcy b hy x hcx hx
      · rw [hsame y hcy] at hy
        exact h.disjoint x y hne hx hy

end LinkedChain
