import ShaderPair.Proofs.BufferSites
import ShaderPair.Proofs.DerivativeFlip
import ShaderPair.Proofs.DirectiveComments
import ShaderPair.Proofs.StageAgreement

/-!
# Directives that are comments already

Directives are turned into comments twice: in each stage after its defines have been put in, and
once more when the stage is finished.  A text is left alone exactly if two slashes stand in front of
each of its directives (`Define.commentOut_eq_self_iff`), and `Define.commentOut` makes such a text
out of any text (`Define.commentOut_commentOut`), by nothing but slashes in front of the directives
that do not have them (`Define.exists_parts`).

In between, the declarations of samplers and buffers get the annotations of their slots
(`Slot.Annotating`), which neither bring a directive nor part one from its slashes
(`Slot.Annotating.commentOut`), and the declaration of the leftover buffer, which ends a line, comes
in front.  So the second time only this declaration is changed (`directives_commented_once`).
-/

namespace ShaderPair

/-- A word does not reach back over a character that it does not hold. -/
theorem Text.suffix_append_cons_iff {c : Char} {k : Text} (h : c ∉ k) (s t : Text) :
  k <:+ s ++ c :: t ↔ k <:+ t
  := by
  have hk : c ∉ k.reverse := by rwa [List.mem_reverse]
  rw [← List.reverse_prefix, List.reverse_append, List.reverse_cons, List.append_assoc,
    List.singleton_append, Text.prefix_append_cons_iff hk, List.reverse_prefix]

/-! ### Texts without bare directives -/

namespace Define

variable {c : Char} {t : Text} {slashes : Nat}

theorem suffix_replicate_iff :
  ['/', '/'] <:+ List.replicate slashes '/' ↔ 2 ≤ slashes
  := by
  rw [List.suffix_replicate_iff]
  simp

/-- The slashes that matter are those directly in front. -/
theorem suffix_replicate_append_cons_iff (slashes : Nat) (c : Char) (s : Text) :
  ['/', '/'] <:+ List.replicate slashes '/' ++ c :: s ↔
    ['/', '/'] <:+ List.replicate (if c = '/' then slashes + 1 else 0) '/' ++ s
  := by
  split
  next h => rw [h, List.replicate_succ', List.append_assoc, List.singleton_append]
  next h => rw [Text.suffix_append_cons_iff (by simp [h]), List.replicate_zero, List.nil_append]

/-- The directives are found in the text as it was. -/
theorem prefix_of_prefix_commentOutAfter
    (h : marker <+: c :: commentOutAfter (if c = '/' then slashes + 1 else 0) t) :
  marker <+: c :: t
  := by
  have hplain : ∀ c ∈ (['d', 'e', 'f', 'i', 'n', 'e', ' '] : Text), c ≠ '#' ∧ c ≠ '/' := by simp
  rw [text_marker, List.cons_prefix_cons] at h ⊢
  obtain ⟨rfl, u, hu⟩ := h
  obtain ⟨r, rfl, -⟩ := (commentOut_eq_append_iff hplain).mp hu.symm
  exact ⟨rfl, List.prefix_append _ r⟩

theorem not_prefix_slash (t : Text) :
  ¬ marker <+: '/' :: t
  := fun h => absurd (eq_of_starts h) (by decide)

theorem commentOutAfter_commentOutAfter (slashes : Nat) (t : Text) :
  commentOutAfter slashes (commentOutAfter slashes t) = commentOutAfter slashes t
  := by
  induction slashes, t using commentOut_induction with
  | nil => rfl
  | directive slashes t hstarts hslashes ih =>
    -- The slashes count the second time.
    have hafter : marker <+: '#' :: commentOut t → 2 ≤ slashes + 2 := by omega
    rw [commentOutAfter_of_starts hstarts hslashes,
      commentOutAfter_of_not_prefix (not_prefix_slash _), if_pos rfl,
      commentOutAfter_of_not_prefix (not_prefix_slash _), if_pos rfl,
      commentOutAfter_of_imp hafter, if_neg (by decide), commentOut, ih]
  | char slashes c t hc ih =>
    have hagain : marker <+: c :: commentOutAfter (if c = '/' then slashes + 1 else 0) t →
        2 ≤ slashes := fun hstarts => hc (prefix_of_prefix_commentOutAfter hstarts)
    rw [commentOutAfter_of_imp hc, commentOutAfter_of_imp hagain, ih]

/-- Comments are made once and for all. -/
theorem commentOut_commentOut (t : Text) :
  commentOut (commentOut t) = commentOut t
  := commentOutAfter_commentOutAfter 0 t

theorem commentOutAfter_cons_eq_self_iff :
  commentOutAfter slashes (c :: t) = c :: t ↔
    (marker <+: c :: t → 2 ≤ slashes) ∧
      commentOutAfter (if c = '/' then slashes + 1 else 0) t = t
  := by
  constructor
  · intro heq
    have hkept : marker <+: c :: t → 2 ≤ slashes := by
      intro hstarts
      by_contra hslashes
      obtain rfl := eq_of_starts hstarts
      rw [commentOutAfter_of_starts hstarts (by omega)] at heq
      cases (List.cons.inj heq).1
    rw [commentOutAfter_of_imp hkept] at heq
    exact ⟨hkept, (List.cons.inj heq).2⟩
  · rintro ⟨hkept, ht⟩
    rw [commentOutAfter_of_imp hkept, ht]

theorem commentOutAfter_eq_self_iff :
  commentOutAfter slashes t = t ↔
    ∀ s r, t = s ++ (marker ++ r) → ['/', '/'] <:+ List.replicate slashes '/' ++ s
  := by
  induction t generalizing slashes with
  | nil => simp [commentOutAfter, text_marker]
  | cons c t ih =>
    rw [commentOutAfter_cons_eq_self_iff, ih]
    constructor
    · rintro ⟨hstart, hrest⟩ s r heq
      cases s with
      | nil =>
        rw [List.append_nil, suffix_replicate_iff]
        exact hstart ⟨r, heq.symm⟩
      | cons d s =>
        obtain ⟨rfl, rfl⟩ := List.cons.inj heq
        rw [suffix_replicate_append_cons_iff]
        apply hrest s r rfl
    · intro h
      constructor
      · rintro ⟨r, hr⟩
        rw [← suffix_replicate_iff, ← List.append_nil (List.replicate _ _)]
        apply h [] r hr.symm
      · rintro s r rfl
        rw [← suffix_replicate_append_cons_iff]
        apply h (c :: s) r rfl

/-- A text is left alone exactly if two slashes stand in front of each of its directives. -/
theorem commentOut_eq_self_iff :
  commentOut t = t ↔ ∀ s r, t = s ++ (marker ++ r) → ['/', '/'] <:+ s
  := commentOutAfter_eq_self_iff

theorem commentOutAfter_of_not_mem (h : '#' ∉ t) (slashes : Nat) :
  commentOutAfter slashes t = t
  := by
  rw [commentOutAfter_eq_self_iff]
  rintro s r rfl
  rw [text_marker] at h
  simp at h

/-! ### The directives that get slashes -/

/-- A directive does not reach into the next one. -/
theorem prefix_of_prefix_append_flatten
    {first : Text} {parts : List Text} (hparts : ∀ part ∈ parts, marker <+: part)
    (h : marker <+: c :: (first ++ parts.flatten)) :
  marker <+: c :: first
  := by
  cases parts with
  | nil => rwa [List.flatten_nil, List.append_nil] at h
  | cons part parts =>
    obtain ⟨r, rfl⟩ := hparts part List.mem_cons_self
    have hhash : '#' ∉ (['d', 'e', 'f', 'i', 'n', 'e', ' '] : Text) := by decide
    rw [List.flatten_cons, text_marker, List.cons_append, List.cons_append,
      List.cons_prefix_cons, Text.prefix_append_cons_iff hhash] at h
    rwa [text_marker, List.cons_prefix_cons]

/-- A text falls into a first part and parts that start with directives; these get slashes, and no
part in front of one of them ends in two slashes. -/
theorem exists_parts_after (slashes : Nat) (t : Text) :
  ∃ first parts,
    t = first ++ parts.flatten ∧
    (∀ part ∈ parts, marker <+: part) ∧
    (∀ part ∈ ((List.replicate slashes '/' ++ first) :: parts).dropLast, ¬ ['/', '/'] <:+ part) ∧
    commentOutAfter slashes t = first ++ parts.flatMap (['/', '/'] ++ ·)
  := by
  induction slashes, t using commentOut_induction with
  | nil => exact ⟨[], [], rfl, by simp, by simp, rfl⟩
  | directive slashes t hdirective hslashes ih =>
    obtain ⟨first, parts, rfl, hstarts, hbare, hcomments⟩ := ih
    refine ⟨[], ('#' :: first) :: parts, rfl, ?_, ?_, ?_⟩
    · rw [List.forall_mem_cons]
      exact ⟨prefix_of_prefix_append_flatten hstarts hdirective, hstarts⟩
    · have hfirst : ['/', '/'] <:+ '#' :: first ↔ ['/', '/'] <:+ first :=
        Text.suffix_append_cons_iff (by decide) [] first
      rw [List.dropLast_cons_cons, List.forall_mem_cons, List.append_nil, suffix_replicate_iff,
        Nat.not_le]
      use hslashes
      cases parts with
      | nil => simp
      | cons part parts =>
        rw [List.dropLast_cons_cons, List.forall_mem_cons] at hbare ⊢
        rwa [hfirst]
    · rw [commentOutAfter_of_starts hdirective hslashes, commentOut, hcomments]
      rfl
  | char slashes c t hc ih =>
    obtain ⟨first, parts, rfl, hstarts, hbare, hcomments⟩ := ih
    refine ⟨c :: first, parts, rfl, hstarts, ?_, ?_⟩
    · cases parts with
      | nil => simp
      | cons part parts =>
        rw [List.dropLast_cons_cons, List.forall_mem_cons] at hbare ⊢
        rwa [suffix_replicate_append_cons_iff]
    · rw [commentOutAfter_of_imp hc, hcomments]
      rfl

/-- Slashes are put in front of those directives that have none in front, and nothing else is
changed. -/
theorem exists_parts (t : Text) :
  ∃ first parts,
    t = first ++ parts.flatten ∧
    (∀ part ∈ parts, marker <+: part) ∧
    (∀ part ∈ (first :: parts).dropLast, ¬ ['/', '/'] <:+ part) ∧
    commentOut t = first ++ parts.flatMap (['/', '/'] ++ ·)
  := exists_parts_after 0 t

end Define

/-! ### Annotations -/

theorem Slot.annotation_eq_cons (slot : Slot) :
  ∃ t, slot.annotation = '@' :: t
  := by
  unfold annotation
  rw [annotationOf, Text.ofString_eq]
  exact ⟨_, rfl⟩

namespace Slot

/-- The second text is the first one with annotations in front of some variable declarations. -/
inductive Annotating : Text → Text → Prop
  | nil : Annotating [] []
  | keep {t u : Text} (c : Char) (tail : Annotating t u) : Annotating (c :: t) (c :: u)
  | place {t u : Text} (slot : Slot) (tail : Annotating t u) :
    Annotating ('v' :: t) (slot.annotation ++ 'v' :: u)

variable {t u : Text}

theorem Annotating.append_left (h : Annotating t u) (s : Text) :
  Annotating (s ++ t) (s ++ u)
  := by
  induction s with
  | nil => exact h
  | cons c s ih => apply Annotating.keep c ih

/-- An annotation is no part of a word without an `@`. -/
theorem Annotating.prefix_source (h : Annotating t u) {w : Text} (hw : '@' ∉ w) (hu : w <+: u) :
  w <+: t
  := by
  induction h generalizing w with
  | nil => exact hu
  | keep c _ ih =>
    cases w with
    | nil => apply List.nil_prefix
    | cons d w =>
      rw [List.cons_prefix_cons] at hu ⊢
      exact ⟨hu.1, ih (fun hmem => hw (List.mem_cons_of_mem d hmem)) hu.2⟩
  | place slot _ _ =>
    cases w with
    | nil => apply List.nil_prefix
    | cons d w =>
      obtain ⟨a, ha⟩ := slot.annotation_eq_cons
      rw [ha, List.cons_append] at hu
      rw [(List.cons_prefix_cons.mp hu).1] at hw
      exact absurd List.mem_cons_self hw

theorem Annotating.commentOutAfter
    (h : Annotating t u) {slashes : Nat} (ht : Define.commentOutAfter slashes t = t) :
  Define.commentOutAfter slashes u = u
  := by
  induction h generalizing slashes with
  | nil => rfl
  | keep c h ih =>
    rw [Define.commentOutAfter_cons_eq_self_iff] at ht ⊢
    refine ⟨fun hstarts => ht.1 ?_, ih ht.2⟩
    apply (h.keep c).prefix_source _ hstarts
    rw [Define.text_marker]
    decide
  | place slot h ih =>
    have hmarker : 'v' ∉ Define.marker := by
      rw [Define.text_marker]
      decide
    have hv : 'v' ≠ '/' := by decide
    have hhash : '#' ∉ slot.annotation := by
      apply slot.not_mem_annotation rfl
      rw [Text.ofString_eq]
      decide
    rw [Define.commentOutAfter_cons_eq_self_iff, if_neg hv] at ht
    rw [Define.commentOutAfter_append_cons hmarker hv,
      Define.commentOutAfter_of_not_mem hhash, Define.commentOut, ih ht.2]

/-- Annotations leave comments alone. -/
theorem Annotating.commentOut (h : Annotating t u) (ht : Define.commentOut t = t) :
  Define.commentOut u = u
  := h.commentOutAfter ht

end Slot

/-! ### Annotated stages -/

/-- What starts with a word applies at the first character of the word. -/
theorem Pattern.eq_of_first?_word_bind
    {α : Type} {f : Unit → Pattern α} {c d : Char} {r w : Text} {way : α × Text}
    (hw : w.head? = some d) (h : (word w >>= f).first? (c :: r) = some way) :
  c = d
  := by
  have hmem := List.mem_of_mem_head? h
  obtain ⟨way', hway, -⟩ := mem_bind_iff.mp hmem
  have heq := congrArg List.head? (Define.eq_of_mem_word hway)
  rw [List.head?_append, hw] at heq
  exact Option.some.inj heq

namespace Piece

variable {α : Type}

/-- A stretch starts where the pattern applies. -/
theorem exists_cons_of_found_mem
    {p : Option Char → Pattern α} {before : Option Char} {skip : Nat} {s t : Text} {a : α}
    (h : found s a ∈ ofTextAfter p before skip t) :
  ∃ c s' r b way, s = c :: s' ∧ Pattern.first? (p b) (c :: r) = some way
  := by
  induction t generalizing before skip with
  | nil => cases skip <;> cases h
  | cons c r ih =>
    cases skip with
    | succ skip => exact ih h
    | zero =>
      rw [ofTextAfter] at h
      split at h
      next =>
        rw [List.mem_cons, or_iff_right (by rintro ⟨⟩)] at h
        exact ih h
      next way rest hway =>
        dsimp only at h
        split at h
        next =>
          rw [List.mem_cons, or_iff_right (by rintro ⟨⟩)] at h
          exact ih h
        next hsize =>
          rcases List.mem_cons.mp h with heq | h
          · obtain ⟨size, hsize⟩ := Nat.exists_eq_succ_of_ne_zero hsize
            rw [hsize, List.take_succ_cons] at heq
            exact ⟨c, _, r, before, _, (Piece.found.inj heq).1, hway⟩
          · exact ih h

/-- Pieces that were found at variable declarations are annotated there. -/
theorem annotating_annotate
    {pieces : List (Piece α)} (h : ∀ s a, found s a ∈ pieces → ∃ s', s = 'v' :: s')
    (slots : List Slot) :
  Slot.Annotating (pieces.flatMap source) (annotate pieces slots)
  := by
  induction pieces generalizing slots with
  | nil => apply Slot.Annotating.nil
  | cons piece pieces ih =>
    have htail := ih fun s a hmem => h s a (List.mem_cons_of_mem piece hmem)
    rw [List.flatMap_cons]
    cases piece with
    | plain c => apply (htail slots).keep c
    | found s a =>
      cases slots with
      | nil => apply (htail []).append_left s
      | cons slot slots =>
        obtain ⟨s', rfl⟩ := h s a List.mem_cons_self
        rw [annotate, List.append_assoc]
        apply Slot.Annotating.place slot ((htail slots).append_left s')

end Piece

namespace Compile

variable {c : Context} {t u : Text}

theorem annotating_annotateEach
    {α : Type} {f : α → Compile Slot} {p : Pattern α}
    (hp : ∀ c r way, p.first? (c :: r) = some way → c = 'v')
    (h : (annotateEach f (Piece.ofText (fun _ => p) t) c).result = .ok u) :
  Slot.Annotating t u
  := by
  rw [annotateEach_eq] at h
  obtain ⟨slots, -, hu⟩ := ok_of_bind h
  obtain rfl := Except.ok.inj hu
  have hfound : ∀ s a, Piece.found s a ∈ Piece.ofText (fun _ => p) t → ∃ s', s = 'v' :: s' := by
    intro s a hmem
    obtain ⟨c, s', r, _, way, rfl, hway⟩ := Piece.exists_cons_of_found_mem hmem
    rw [hp c r way hway]
    exact ⟨s', rfl⟩
  have hannotating := Piece.annotating_annotate hfound slots
  rwa [Piece.flatMap_source_ofText] at hannotating

theorem annotating_annotateSamplers
    {stage : Stage} (h : (annotateSamplers stage t c).result = .ok u) :
  Slot.Annotating t u
  := by
  refine annotating_annotateEach (fun _ _ _ hway => ?_) h
  apply Pattern.eq_of_first?_word_bind _ hway
  rw [Text.ofString_eq]
  rfl

theorem annotating_annotateBuffers
    {stage : Stage} (h : (annotateBuffers stage t c).result = .ok u) :
  Slot.Annotating t u
  := by
  refine annotating_annotateEach (fun _ _ _ hway => ?_) h
  apply Pattern.eq_of_first?_word_bind _ hway
  rw [Text.ofString_eq]
  rfl

theorem commentOut_of_declareStages
    {source : SourcePair} {declared : StageTexts}
    (h : (declareStages source c).result = .ok declared) :
  Define.commentOut declared.vertex = declared.vertex ∧
    Define.commentOut declared.fragment = declared.fragment
  := by
  obtain ⟨_, -, h⟩ := ok_of_bind h
  obtain ⟨_, -, h⟩ := ok_of_bind h
  obtain ⟨_, -, h⟩ := ok_of_bind h
  obtain ⟨texts, -, h⟩ := ok_of_bind h
  obtain rfl := Except.ok.inj h
  exact ⟨Define.commentOut_commentOut _, Define.commentOut_commentOut _⟩

theorem commentOut_of_bothStages
    {f : Stage → Text → Compile Text} {texts out : StageTexts}
    (hf : ∀ {stage t c u}, (f stage t c).result = .ok u → Slot.Annotating t u)
    (h : (bothStages f texts c).result = .ok out)
    (htexts : Define.commentOut texts.vertex = texts.vertex ∧
      Define.commentOut texts.fragment = texts.fragment) :
  Define.commentOut out.vertex = out.vertex ∧ Define.commentOut out.fragment = out.fragment
  := by
  obtain ⟨vertex, hvertex, h⟩ := ok_of_bind h
  obtain ⟨fragment, hfragment, h⟩ := ok_of_bind h
  obtain rfl := Except.ok.inj h
  exact ⟨(hf hvertex).commentOut htexts.1, (hf hfragment).commentOut htexts.2⟩

/-- The annotated stages of a pair have no directives that are not comments. -/
theorem commentOut_of_annotate
    {declared annotated : StageTexts} {leftOver : Text}
    (h : (annotate declared c).result = .ok (leftOver, annotated))
    (hdeclared : Define.commentOut declared.vertex = declared.vertex ∧
      Define.commentOut declared.fragment = declared.fragment) :
  Define.commentOut annotated.vertex = annotated.vertex ∧
    Define.commentOut annotated.fragment = annotated.fragment
  := by
  obtain ⟨sampled, hsampled, h⟩ := ok_of_bind h
  obtain ⟨buffered, hbuffered, h⟩ := ok_of_bind h
  obtain ⟨_, -, h⟩ := ok_of_bind h
  obtain ⟨-, rfl⟩ := Prod.mk.inj (Except.ok.inj h)
  apply commentOut_of_bothStages annotating_annotateBuffers hbuffered
  apply commentOut_of_bothStages annotating_annotateSamplers hsampled hdeclared

end Compile

/-- To turn directives into comments twice is to do it once: two slashes stand in front of every
directive then, and slashes in front of some directives are all that is new.  So when the stages of
a pair are finished, only the declaration of the leftover buffer is changed. -/
theorem directives_commented_once :
  (∀ code,
    Define.commentOut (Define.commentOut code) = Define.commentOut code ∧
    (∀ s r, Define.commentOut code = s ++ (Define.marker ++ r) → ['/', '/'] <:+ s) ∧
    ∃ first parts,
      code = first ++ parts.flatten ∧
      (∀ part ∈ parts, Define.marker <+: part) ∧
      (∀ part ∈ (first :: parts).dropLast, ¬ ['/', '/'] <:+ part) ∧
      Define.commentOut code = first ++ parts.flatMap (['/', '/'] ++ ·)) ∧
  ∀ source c out, (Compile.pair source c).result = .ok out →
    ∃ declared leftOver annotated,
      (Compile.declareStages source c).result = .ok declared ∧
      (Compile.annotate declared (Compile.declareStages source c).context).result
        = .ok (leftOver, annotated) ∧
      out = annotated.finished c.mode (c.entered source).built.interface.declarations leftOver ∧
      Define.commentOut (leftOver ++ annotated.vertex)
        = Define.commentOut leftOver ++ annotated.vertex ∧
      Define.commentOut (leftOver ++ annotated.fragment)
        = Define.commentOut leftOver ++ annotated.fragment
  := by
  constructor
  · intro code
    refine ⟨Define.commentOut_commentOut code, ?_, Define.exists_parts code⟩
    apply Define.commentOut_eq_self_iff.mp (Define.commentOut_commentOut code)
  · intro source c out hout
    obtain ⟨⟨slot, declared, annotated, hdeclared, hannotated, hfinished⟩, -⟩ :=
      Compile.pair_of_ok hout
    obtain ⟨hvertex, hfragment⟩ := Compile.commentOut_of_annotate hannotated
      (Compile.commentOut_of_declareStages hdeclared)
    have hterminated := LeftOver.terminated_declaration slot 0 (c.entered source).uniforms
    refine ⟨declared, _, annotated, hdeclared, hannotated, hfinished, ?_, ?_⟩
    · rw [Define.commentOut_append hterminated, hvertex]
    · rw [Define.commentOut_append hterminated, hfragment]

/-- A pair with a directive, a sampler and a plain uniform. -/
def configured : SourcePair where
  vertex := "#define SIZE 4\nuniform scale : f32;"
  fragment := "var lightSampler : sampler;\n//#define LIGHT 1"

/-- The directives of a pair are comments in its annotated stages. -/
theorem directives_commented_once_configured :
  let c := Context.fresh .engine {} ∅
  ∃ out declared leftOver annotated,
    (Compile.pair configured c).result = .ok out ∧
    (Compile.annotate declared (Compile.declareStages configured c).context).result
      = .ok (leftOver, annotated) ∧
    Define.commentOut (leftOver ++ annotated.vertex)
      = Define.commentOut leftOver ++ annotated.vertex
  := by
  intro c
  have hok : (Compile.pair configured c).result.isOk := by decide +kernel
  obtain ⟨out, hout⟩ := Compile.exists_of_isOk hok
  obtain ⟨declared, leftOver, annotated, -, hannotated, -, hvertex, -⟩ :=
    directives_commented_once.2 configured c out hout
  exact ⟨out, declared, leftOver, annotated, hout, hannotated, hvertex⟩

end ShaderPair
