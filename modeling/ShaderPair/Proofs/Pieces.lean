import ShaderPair.Text.Piece

/-!
# A text cut into pieces, from left to right

A pass over a text replaces the stretches that a pattern recognises, and nothing else.  Put
together again, the pieces of a text start with its first character if the pattern does not apply
there (`Piece.assemble_ofTextAfter_cons`), and with the replacement of the stretch that it
recognises otherwise (`Piece.assemble_ofTextAfter_append`).  For a pattern that does not look at
the character in front of a place, the rest is treated as a text of its own
(`Piece.assemble_ofText_cons`, `Piece.assemble_ofText_append`).
-/

namespace ShaderPair

namespace Piece

section

variable
  {α : Type} (p : Option Char → Pattern α) (f : Text → α → Text) (before : Option Char)
  {a : α} {c : Char} {s t : Text}

/-- Inside a stretch everything is passed over. -/
theorem ofTextAfter_length_append (s t : Text) :
  ofTextAfter p before s.length (s ++ t) = ofTextAfter p (s.getLast?.or before) 0 t
  := by
  induction s generalizing before with
  | nil => rfl
  | cons c s ih =>
    rw [List.length_cons, List.cons_append, ofTextAfter, ih, List.getLast?_cons, Option.some_or,
      Option.or_some]

/-- A character at which the pattern does not apply stays. -/
theorem assemble_ofTextAfter_cons (h : (p before).first? (c :: t) = none) :
  assemble f (ofTextAfter p before 0 (c :: t)) = c :: assemble f (ofTextAfter p (some c) 0 t)
  := by
  rw [ofTextAfter, h]
  rfl

/-- A stretch in which the pattern recognises a value is a piece. -/
theorem ofTextAfter_append (hs : s ≠ []) (h : (p before).first? (s ++ t) = some (a, t)) :
  ofTextAfter p before 0 (s ++ t) = found s a :: ofTextAfter p s.getLast? 0 t
  := by
  obtain ⟨c, s, rfl⟩ := List.exists_cons_of_ne_nil hs
  have hsize : (s ++ t).length + 1 - t.length = s.length + 1 := by
    rw [List.length_append]
    omega
  have htake : (c :: (s ++ t)).take (s.length + 1) = c :: s := by
    rw [List.take_succ_cons, List.take_left]
  have hlast : (c :: s).getLast? = s.getLast?.or (some c) := by
    rw [List.getLast?_cons, Option.or_some]
  rw [List.cons_append] at h
  rw [hlast, ← ofTextAfter_length_append, List.cons_append, ofTextAfter, h]
  simp only [hsize, Nat.add_one_ne_zero, if_false, Nat.add_sub_cancel, htake]

/-- A stretch in which the pattern recognises a value is replaced. -/
theorem assemble_ofTextAfter_append
    (hs : s ≠ []) (h : (p before).first? (s ++ t) = some (a, t)) :
  assemble f (ofTextAfter p before 0 (s ++ t))
    = f s a ++ assemble f (ofTextAfter p s.getLast? 0 t)
  := by
  rw [ofTextAfter_append p before hs h]
  rfl

end

section

variable {α : Type} {p : Pattern α} {f : Text → α → Text} {a : α} {c : Char} {s t : Text}

/-- The character in front of a text is of no importance to a pattern that does not look at it. -/
theorem ofTextAfter_eq_ofText (before : Option Char) (t : Text) :
  ofTextAfter (fun _ => p) before 0 t = ofText (fun _ => p) t
  := by
  cases t <;> rfl

theorem ofText_cons (h : p.first? (c :: t) = none) :
  ofText (fun _ => p) (c :: t) = plain c :: ofText (fun _ => p) t
  := by
  rw [ofText, ofTextAfter, h]
  dsimp only
  rw [ofTextAfter_eq_ofText]

theorem ofText_append (hs : s ≠ []) (h : p.first? (s ++ t) = some (a, t)) :
  ofText (fun _ => p) (s ++ t) = found s a :: ofText (fun _ => p) t
  := by
  rw [ofText, ofTextAfter_append _ none hs h, ofTextAfter_eq_ofText]

/-- Where no stretch reaches from a text into what follows, this is cut into pieces of its own. -/
theorem exists_ofText_append
    (h : ∀ s ≠ [], ∀ way ∈ p (s ++ t), t <:+ way.2) (s : Text) :
  ∃ above, ofText (fun _ => p) (s ++ t) = above ++ ofText (fun _ => p) t ∧
    above.flatMap source = s
  := by
  have hafter : ∀ s before skip, skip ≤ s.length → ∃ above,
      ofTextAfter (fun _ => p) before skip (s ++ t) = above ++ ofText (fun _ => p) t ∧
        above.flatMap source = s.drop skip := by
    intro s
    induction s with
    | nil =>
      intro before skip hskip
      obtain rfl := Nat.le_zero.mp hskip
      exact ⟨[], ofTextAfter_eq_ofText before t, rfl⟩
    | cons c s ih =>
      intro before skip hskip
      rw [List.cons_append]
      cases skip with
      | succ skip =>
        rw [ofTextAfter, List.drop_succ_cons]
        exact ih (some c) skip (Nat.le_of_succ_le_succ hskip)
      | zero =>
        have hplain : ∃ above, plain c :: ofTextAfter (fun _ => p) (some c) 0 (s ++ t)
            = above ++ ofText (fun _ => p) t ∧ above.flatMap source = c :: s := by
          obtain ⟨above, heq, hsource⟩ := ih (some c) 0 (Nat.zero_le _)
          refine ⟨plain c :: above, by rw [heq]; rfl, ?_⟩
          rw [List.flatMap_cons, hsource]
          rfl
        rw [ofTextAfter]
        split
        · exact hplain
        next a rest hfirst =>
          have hway : (a, rest) ∈ p (c :: s ++ t) := List.mem_of_mem_head? hfirst
          have hlength : t.length ≤ rest.length :=
            (h _ (List.cons_ne_nil c s) _ hway).length_le
          have hsize : (s ++ t).length + 1 - rest.length ≤ s.length + 1 := by
            rw [List.length_append]
            omega
          dsimp only
          generalize (s ++ t).length + 1 - rest.length = size at hsize
          cases size with
          | zero => exact hplain
          | succ size =>
            have hle := Nat.le_of_succ_le_succ hsize
            obtain ⟨above, heq, hsource⟩ := ih (some c) size hle
            rw [if_neg (Nat.succ_ne_zero size), Nat.add_sub_cancel, heq]
            refine ⟨_ :: above, rfl, ?_⟩
            rw [List.flatMap_cons, hsource, source, List.take_succ_cons,
              List.take_append_of_le_length hle, List.cons_append, List.take_append_drop]
            rfl
  exact hafter s none 0 (Nat.zero_le _)

theorem assemble_ofText_cons (h : p.first? (c :: t) = none) :
  assemble f (ofText (fun _ => p) (c :: t)) = c :: assemble f (ofText (fun _ => p) t)
  := by
  rw [ofText, assemble_ofTextAfter_cons _ f none h, ofTextAfter_eq_ofText]

theorem assemble_ofText_append (hs : s ≠ []) (h : p.first? (s ++ t) = some (a, t)) :
  assemble f (ofText (fun _ => p) (s ++ t)) = f s a ++ assemble f (ofText (fun _ => p) t)
  := by
  rw [ofText, assemble_ofTextAfter_append _ f none hs h, ofTextAfter_eq_ofText]

end

end Piece

end ShaderPair
