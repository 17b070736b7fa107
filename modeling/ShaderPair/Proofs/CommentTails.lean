import ShaderPair.Declaration
import ShaderPair.Proofs.SteadyPatterns

/-!
# Comments behind declarations

Every declaration ends with a semicolon: its pattern is settled, so that it finds the same whether
or not a text without semicolons follows (`Declaration.settled_attributePattern` and its
companions).  What follows may still make a line one of varyings.  A text that holds neither the
word for them nor a semicolon is `Declaration.Inert` if it goes on with no identifier, and in front
of it a line declares the same (`Declaration.ofLine?_append`).  A line without semicolons declares
nothing (`Declaration.ofLine?_eq_none`).
-/

namespace ShaderPair

namespace Declaration

open Pattern
open Text (IsIdentifier isBlank isBoundary isInLine isSolid isWord)

variable {t x : Text} (hx : ';' ∉ x)

include hx

omit hx in
theorem nothing_append (gap : Text) (closer c : Char) (s : Text) :
  nothing gap closer (c :: (s ++ x)) = (nothing gap closer (c :: s)).map (extend x)
  := by
  have hcons : ∀ r, nothing gap closer (c :: r)
      = if gap.any isInLine && some c == some closer then [([], r)] else [] := fun _ => rfl
  rw [hcons, hcons]
  split <;> rfl

theorem steady_nothing (gap : Text) (closer : Char) :
  Steady x (nothing gap closer)
  := by
  have hadvances : Advances (nothing gap closer) := by
    intro t way hway
    rw [nothing] at hway
    split at hway
    · rw [List.mem_singleton.mp hway]
      apply List.drop_suffix
    · cases hway
  apply steady_of_cases hx hadvances
  intro s
  cases s with
  | nil =>
    right
    constructor
    · exact fun way hway => hadvances x way hway
    · intro way hway
      rw [nothing] at hway
      split at hway
      · rw [List.mem_singleton.mp hway]
        rfl
      · cases hway
  | cons c s =>
    left
    apply nothing_append

theorem settled_nothing (gap : Text) :
  Settled x (nothing gap ';')
  := by
  have hnone : ∀ {t : Text}, t.head? ≠ some ';' → nothing gap ';' t = [] := by
    intro t ht
    rw [nothing, if_neg]
    simp [ht]
  constructor
  · intro t ht
    apply hnone
    exact fun hhead => ht (List.mem_of_mem_head? hhead)
  · intro s
    cases s with
    | nil =>
      rw [List.nil_append, hnone fun hhead => hx (List.mem_of_mem_head? hhead), hnone (by simp)]
      rfl
    | cons c s => apply nothing_append

theorem settled_typePattern :
  Settled x typePattern
  := by
  apply (steady_all hx isBlank).bind_settled
  intro gap
  apply Settled.map
  apply ((settled_upToLast hx isInLine).orElse (settled_nothing hx gap)).once

theorem settled_solidVariable :
  Settled x solidVariable
  := by
  rw [solidVariable, onceThen_eq_once_bind]
  apply Settled.once
  apply (steady_upToLast hx isSolid ':').bind_settled
  intro name
  apply Settled.map (settled_typePattern hx)

theorem settled_attributePattern :
  Settled x attributePattern
  := by
  apply (steady_blanks hx).bind_settled
  intro _
  apply (steady_word hx "attribute").bind_settled
  intro _
  apply (steady_blanks1 hx).bind_settled
  intro _
  apply settled_solidVariable hx

theorem settled_varyingPattern :
  Settled x varyingPattern
  := by
  apply (steady_blanks hx).bind_settled
  intro _
  apply (Steady.optional hx (steady_oneOf hx interpolations)).bind_settled
  intro interpolation
  apply (steady_blanks hx).bind_settled
  intro _
  apply (Steady.optional hx (steady_oneOf hx samplings)).bind_settled
  intro sampling
  apply (steady_blanks hx).bind_settled
  intro _
  apply (steady_word hx "varying").bind_settled
  intro _
  apply (steady_blanks1 hx).bind_settled
  intro _
  have hprecision : Steady x precision :=
    (steady_word hx "highp").orElse ((steady_pure hx ()).orElse (steady_word hx "lowp"))
  apply hprecision.bind_settled
  intro _
  apply (steady_blanks hx).bind_settled
  intro _
  apply Settled.map (settled_solidVariable hx)

theorem settled_uniformPattern :
  Settled x uniformPattern
  := by
  apply (steady_word hx "uniform").bind_settled
  intro _
  apply (steady_blanks1 hx).bind_settled
  intro _
  apply (steady_all1 hx isWord).bind_settled
  intro name
  apply (steady_blanks hx).bind_settled
  intro _
  apply (steady_word hx ":").bind_settled
  intro _
  apply Settled.map (settled_typePattern hx)

omit hx in
/-- The end of template arguments is behind a closer. -/
theorem suffix_of_mem_templateEnd
    {gap t : Text} {way : Text × Text}
    (h : way ∈ (upToLast isInLine '>' <|> nothing gap '>' : Pattern Text) t) :
  '>' :: way.2 <:+ t
  := by
  rcases List.mem_append.mp h with h | h
  · apply suffix_of_mem_upToLast h
  · change way ∈ nothing gap '>' t at h
    rw [nothing] at h
    split at h
    next hcloser =>
      rw [Bool.and_eq_true, beq_iff_eq] at hcloser
      obtain ⟨r, rfl⟩ := List.head?_eq_some_iff.mp hcloser.2
      rw [List.mem_singleton.mp h]
      apply List.suffix_rfl
    next => cases h

/-- Template arguments end behind a closer, and what they give stands in front of the first one. -/
theorem steady_templateArguments :
  Steady x templateArguments
  := by
  apply (steady_word hx "<").bind
  intro _
  apply (steady_all hx isBlank).bind
  intro gap
  rw [here_bind]
  have hfinish : Steady x (upToLast isInLine '>' <|> nothing gap '>' : Pattern Text) :=
    (steady_upToLast hx isInLine '>').orElse (steady_nothing hx gap '>')
  constructor
  · intro t
    exact (hfinish.advances.bind fun _ => advances_pure _) t
  · intro s
    by_cases hmem : '>' ∈ s
    · have htake : (s ++ x).takeWhile (· != '>') = s.takeWhile (· != '>') := by
        obtain ⟨hnil, -⟩ | ⟨_, _, -, -, htake⟩ := dropWhile_cases (· != '>') s x
        · rw [List.dropWhile_eq_nil_iff] at hnil
          exact absurd (hnil '>' hmem) (by decide)
        · exact htake
      rw [htake]
      exact (Steady.map hx hfinish).filter_eq s
    · -- Without a closer in `s`, there is no semicolon behind any.
      have hnone : ∀ t, (∀ r, '>' :: r <:+ t → ';' ∉ r) → ∀ first : Text,
          ((do
            let _ ← (upToLast isInLine '>' <|> nothing gap '>' : Pattern Text)
            pure first) t).filter isLive = [] := by
        intro t ht first
        apply List.filter_eq_nil_iff.mpr
        intro way hway
        obtain ⟨way', hway', hpure⟩ := mem_bind_iff.mp hway
        rw [List.mem_singleton.mp hpure, not_isLive_iff]
        apply ht _ (suffix_of_mem_templateEnd hway')
      rw [hnone s, hnone (s ++ x)]
      · rfl
      · intro r hr hsemicolon
        have hrest := suffix_of_not_mem hmem hr
        exact hx (hrest.subset (List.mem_cons_of_mem _ hsemicolon))
      · intro r hr
        exact absurd (hr.subset List.mem_cons_self) hmem

theorem steady_arrayEnd :
  Steady x arrayEnd
  := by
  apply (steady_word hx ",").bind
  intro _
  apply (steady_blanks hx).bind
  intro _
  apply (steady_all1 hx isWord).bind
  intro _
  apply (steady_blanks hx).bind
  intro _
  apply (steady_word hx ">").bind
  intro _
  apply steady_blanks hx

theorem steady_textureType :
  Steady x textureType
  := by
  apply (Steady.optional hx ((steady_word hx "array<").bind fun _ => steady_blanks hx)).bind
  intro array
  apply (steady_word hx "texture_").bind
  intro _
  apply (steady_all1 hx isWord).bind
  intro kind
  apply (steady_blanks hx).bind
  intro _
  apply (Steady.optional hx (steady_templateArguments hx)).bind
  intro component
  apply (steady_blanks hx).bind
  intro _
  apply Steady.map hx (Steady.optional hx (steady_arrayEnd hx))

omit hx in
/-- The end of a declaration of a texture whose type starts where `s` does. -/
def textureEnd (name s : Text) (type : Bool × Text × Option Text) : Pattern TextureForm := do
  let rest ← here
  word ";"
  return ⟨name, s.take (s.length - rest.length), type.1, type.2.1, type.2.2⟩

omit hx in
theorem textureEnd_apply (name s : Text) (type : Bool × Text × Option Text) (t : Text) :
  textureEnd name s type t = (do
    word [';']
    return ⟨name, s.take (s.length - t.length), type.1, type.2.1, type.2.2⟩ : Pattern _) t
  := by
  rw [textureEnd, here_bind, Text.ofString_ofList]

theorem textureEnd_eq_nil
    (name s : Text) (type : Bool × Text × Option Text) {t : Text} (ht : ';' ∉ t) :
  textureEnd name s type t = []
  := by
  rw [textureEnd_apply]
  exact (Settled.map (settled_word hx)).eq_nil ht

/-- The type of a texture ends with the rest, whatever follows that. -/
theorem textureEnd_append (name s : Text) (type : Bool × Text × Option Text) (t : Text) :
  textureEnd name (s ++ x) type (t ++ x) = (textureEnd name s type t).map (extend x)
  := by
  have hlength : (s ++ x).length - (t ++ x).length = s.length - t.length := by
    rw [List.length_append, List.length_append]
    omega
  rw [textureEnd_apply, textureEnd_apply, hlength, List.take_append_of_le_length (Nat.sub_le _ _)]
  exact (Settled.map (settled_word hx)).apply_append t

theorem settled_texturePattern :
  Settled x texturePattern
  := by
  apply (steady_word hx "var").bind_settled
  intro _
  apply (steady_blanks1 hx).bind_settled
  intro _
  apply (steady_all1 hx isWord).bind_settled
  intro name
  apply (steady_blanks hx).bind_settled
  intro _
  apply (steady_word hx ":").bind_settled
  intro _
  apply (steady_blanks hx).bind_settled
  intro _
  change Settled x (here >>= fun s => onceThen textureType (textureEnd name s))
  have hnil := fun s type t => textureEnd_eq_nil hx name s type (t := t)
  have htype := steady_textureType hx
  rw [here_bind]
  simp only [onceThen_eq_once_bind]
  constructor
  · intro t ht
    apply once_of_eq_nil
    rw [bind_apply, List.flatMap_eq_nil_iff]
    intro way hway
    apply hnil
    exact fun hmem => ht ((htype.advances t way hway).subset hmem)
  · intro s
    apply once_of_eq_map
    exact htype.flatMap_append (hnil s) (hnil (s ++ x)) (textureEnd_append hx name s) s

omit hx

/-! ### The word for varyings -/

section

variable {w : Text}

/-- An identifier does not start where there is no character of identifiers. -/
theorem not_isPrefixOf_of_head? (hw : IsIdentifier w) (ht : ∀ c ∈ t.head?, ¬ isWord c) :
  w.isPrefixOf t = false
  := by
  rw [Bool.eq_false_iff, Ne, List.isPrefixOf_iff_prefix]
  intro hprefix
  obtain ⟨c, v, rfl⟩ := List.exists_cons_of_ne_nil hw.1
  obtain ⟨r, rfl⟩ := hprefix
  exact ht c rfl (hw.2 c List.mem_cons_self)

theorem hasWordAfter_of_head?
    (hw : IsIdentifier w) (ht : ∀ c ∈ t.head?, ¬ isWord c) (before : Option Char) :
  hasWordAfter w before t = hasWordAfter w none t
  := by
  cases t with
  | nil => rfl
  | cons c r =>
    rw [hasWordAfter, hasWordAfter, not_isPrefixOf_of_head? hw ht]
    rfl

theorem hasWordAfter_of_not_isWord
    (hw : IsIdentifier w) (ht : ∀ c ∈ t, ¬ isWord c) (before : Option Char) :
  hasWordAfter w before t = false
  := by
  induction t generalizing before with
  | nil => rfl
  | cons c r ih =>
    obtain ⟨hc, hr⟩ := List.forall_mem_cons.mp ht
    rw [hasWordAfter, not_isPrefixOf_of_head? hw (by simpa using hc), ih hr]
    rfl

theorem prefix_append_iff (hw : IsIdentifier w) (hhead : ∀ c ∈ x.head?, ¬ isWord c) (t : Text) :
  w <+: t ++ x ↔ w <+: t
  := by
  constructor
  · intro h
    cases x with
    | nil => rwa [List.append_nil] at h
    | cons c r =>
      apply prefix_of_not_mem (d := c) rfl _ h
      exact fun hmem => hhead c rfl (hw.2 c hmem)
  · exact fun h => h.trans (List.prefix_append t x)

/-- A word occurs in front of a text that does not go on with an identifier, or behind that. -/
theorem hasWordAfter_append
    (hw : IsIdentifier w) (hhead : ∀ c ∈ x.head?, ¬ isWord c) (before : Option Char) (t : Text) :
  hasWordAfter w before (t ++ x) = (hasWordAfter w before t || hasWordAfter w none x)
  := by
  induction t generalizing before with
  | nil =>
    rw [List.nil_append, hasWordAfter_of_head? hw hhead]
    rfl
  | cons c r ih =>
    have hboundary : ∀ s : Text, isBoundary w.getLast? (s ++ x).head?
        = isBoundary w.getLast? s.head? := by
      intro s
      cases s with
      | nil =>
        cases x with
        | nil => rfl
        | cons d x =>
          have hd : isWord d = false := by
            simpa using hhead d rfl
          simp [isBoundary, hd]
      | cons d s => rfl
    have hprefix : w.isPrefixOf (c :: r ++ x) = w.isPrefixOf (c :: r) := by
      rw [Bool.eq_iff_iff, List.isPrefixOf_iff_prefix, List.isPrefixOf_iff_prefix]
      apply prefix_append_iff hw hhead
    rw [List.cons_append, hasWordAfter, hasWordAfter, ih, ← Bool.or_assoc]
    congr 2
    rw [← List.cons_append, hprefix]
    by_cases h : w <+: c :: r
    · rw [List.drop_append_of_le_length h.length_le, hboundary]
    · have hfalse : w.isPrefixOf (c :: r) = false := by
        rwa [Bool.eq_false_iff, Ne, List.isPrefixOf_iff_prefix]
      rw [hfalse]
      rfl

end

/-! ### Lines -/

/-- A text that changes nothing about the line in front of it: it holds no semicolon, it is no line
of a varying, and it goes on with no identifier. -/
structure Inert (x : Text) : Prop where
  semicolon : ';' ∉ x
  varying : isVaryingLine x = false
  apart : ∀ c ∈ x.head?, ¬ isWord c

/-- Of the characters of a text, only the first is asked whether it belongs to an identifier. -/
theorem inert_iff :
  Inert x ↔ ';' ∉ x ∧ isVaryingLine x = false ∧ x.head?.all (fun c => !isWord c) = true
  := by
  have hall : x.head?.all (fun c => !isWord c) = true ↔ ∀ c ∈ x.head?, ¬ isWord c := by
    simp [Option.all_eq_true]
  rw [hall]
  constructor
  · rintro ⟨hsemicolon, hvarying, hapart⟩
    exact ⟨hsemicolon, hvarying, hapart⟩
  · rintro ⟨hsemicolon, hvarying, hapart⟩
    exact ⟨hsemicolon, hvarying, hapart⟩

instance : DecidablePred Inert := fun _ => decidable_of_iff' _ inert_iff

theorem isIdentifier_varying :
  IsIdentifier ("varying" : Text)
  := by
  rw [Text.ofString_ofList]
  decide

theorem inert_of_isBlank (h : ∀ c ∈ x, isBlank c) :
  Inert x
  := by
  have hword : ∀ c ∈ x, ¬ isWord c := fun c hc => Text.not_isWord_of_isBlank (h c hc)
  constructor
  · exact fun hmem => absurd (h _ hmem) (by decide)
  · apply hasWordAfter_of_not_isWord isIdentifier_varying hword
  · exact fun c hc => hword c (List.mem_of_mem_head? hc)

/-- What a line without blanks at its start declares. -/
def ofStart? (t : Text) : Option Declaration :=
  if ("attribute" : Text).isPrefixOf t then (attribute? t).map .attribute
  else if isVaryingLine t then (varying? t).map .varying
  else ((uniform? t).map .uniform).or ((texture? t).map .texture)

theorem ofStart?_eq_none (h : ';' ∉ t) :
  ofStart? t = none
  := by
  have hnil : ';' ∉ ([] : Text) := List.not_mem_nil
  have hattribute : attribute? t = none := (settled_attributePattern hnil).find?_eq_none h
  have hvarying : varying? t = none := (settled_varyingPattern hnil).find?_eq_none h
  have huniform : uniform? t = none := (settled_uniformPattern hnil).find?_eq_none h
  have htexture : texture? t = none := (settled_texturePattern hnil).find?_eq_none h
  rw [ofStart?, hattribute, hvarying, huniform, htexture]
  split
  · rfl
  · split <;> rfl

theorem ofStart?_append (hx : Inert x) (t : Text) :
  ofStart? (t ++ x) = ofStart? t
  := by
  have hsemicolon := hx.semicolon
  have hattribute : attribute? (t ++ x) = attribute? t :=
    (settled_attributePattern hsemicolon).find?_append hsemicolon t
  have hvarying : varying? (t ++ x) = varying? t :=
    (settled_varyingPattern hsemicolon).find?_append hsemicolon t
  have huniform : uniform? (t ++ x) = uniform? t :=
    (settled_uniformPattern hsemicolon).find?_append hsemicolon t
  have htexture : texture? (t ++ x) = texture? t :=
    (settled_texturePattern hsemicolon).find?_append hsemicolon t
  have hword : IsIdentifier ("attribute" : Text) := by
    rw [Text.ofString_ofList]
    decide
  have hstart : ("attribute" : Text).isPrefixOf (t ++ x) = ("attribute" : Text).isPrefixOf t := by
    rw [Bool.eq_iff_iff, List.isPrefixOf_iff_prefix, List.isPrefixOf_iff_prefix]
    apply prefix_append_iff hword hx.apart
  have hline : isVaryingLine (t ++ x) = isVaryingLine t := by
    have happend := hasWordAfter_append isIdentifier_varying hx.apart none t
    have hnone : hasWordAfter ("varying" : Text) none x = false := hx.varying
    rwa [hnone, Bool.or_false] at happend
  rw [ofStart?, ofStart?, hattribute, hvarying, huniform, htexture, hstart, hline]

/-- The blanks behind a line make no difference. -/
theorem ofLine?_eq_ofStart? (line : Text) :
  ofLine? line = ofStart? (line.dropWhile isBlank)
  := by
  obtain ⟨z, hz, hline⟩ := Text.exists_dropEndWhile isBlank (line.dropWhile isBlank)
  rw [hline, ofStart?_append (inert_of_isBlank hz)]
  rfl

/-- A line without semicolons declares nothing. -/
theorem ofLine?_eq_none {line : Text} (h : ';' ∉ line) :
  ofLine? line = none
  := by
  rw [ofLine?_eq_ofStart?]
  apply ofStart?_eq_none
  exact fun hmem => h ((List.dropWhile_suffix isBlank).subset hmem)

/-- An inert text behind a line makes no difference. -/
theorem ofLine?_append (hx : Inert x) (line : Text) :
  ofLine? (line ++ x) = ofLine? line
  := by
  rw [ofLine?_eq_ofStart?, ofLine?_eq_ofStart?]
  obtain ⟨hnil, hrest⟩ | ⟨e, r, hdrop, hdrop', -⟩ := dropWhile_cases isBlank line x
  · rw [hnil, ofStart?_eq_none List.not_mem_nil, ofStart?_eq_none]
    exact fun hmem => hx.semicolon (hrest.subset hmem)
  · rw [hdrop, hdrop', ← List.cons_append, ofStart?_append hx]

end Declaration

end ShaderPair
