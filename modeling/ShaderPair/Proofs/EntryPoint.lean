import ShaderPair.Proofs.Edits
import ShaderPair.Proofs.GeneratedStructs

/-!
# The entry point

A finished stage has its prologue and its epilogue in the body of the first function whose
declaration starts with the word for the entry point.  That is the function `main` of the source
(`Finish.MainFunction`), unless the word occurs further up with a brace behind it
(`Finish.Undiverted`): then the prologue goes to that brace.  The stage is edited before it is
wrapped, but edits leave the function where it is (`Finish.MainFunction.exists_edits`), and the
structs in front of the stage do not mention it.  The result is `Finish.entryPoint_wrapped`; the
name of a helper function that starts like that of the entry point is what goes wrong
(`Finish.not_wrapped_mainHelper`).
-/

namespace ShaderPair

open Text (Terminated isBlank)
open Relation (ReflTransGen)

namespace Finish

variable {after before code e r s s' t u w : Text} {d : Declarations}

/-! ### Functions -/

/-- A list of parameters starts behind blanks. -/
def Declares (t : Text) : Prop := (t.dropWhile isBlank).head? = some '('

instance : DecidablePred Declares := fun t =>
  inferInstanceAs (Decidable ((t.dropWhile isBlank).head? = some '('))

/-- No brace is opened behind the word for the entry point. -/
def Undiverted (before : Text) : Prop := ∀ u ∈ before.tails, entryPoint <+: u → '\x7b' ∉ u

instance : DecidablePred Undiverted := fun before =>
  inferInstanceAs (Decidable (∀ u ∈ before.tails, entryPoint <+: u → '\x7b' ∉ u))

/-- A text with a function `main`. -/
structure MainFunction where
  /-- What stands in front of the function. -/
  before : Text
  /-- What stands between the word for the entry point and the brace that opens the body. -/
  signature : Text
  /-- The body. -/
  body : Text
  /-- What stands behind the function. -/
  behind : Text
  declares : Declares signature
  unbraced : '\x7b' ∉ signature
  balanced : Brace.Balanced body

namespace MainFunction

/-- The text. -/
def text (m : MainFunction) : Text :=
  m.before ++ (entryPoint ++ m.signature) ++ '\x7b' :: (m.body ++ '\x7d' :: m.behind)

/-- The text with code at the start and at the end of the body. -/
def wrapped (m : MainFunction) (start finish : Text) : Text :=
  m.before ++ (entryPoint ++ m.signature)
    ++ '\x7b' :: (start ++ (m.body ++ (finish ++ '\n' :: '\x7d' :: m.behind)))

/-- The parts of one text are those of another one after edits. -/
structure Edits (m m' : MainFunction) : Prop where
  before : ReflTransGen Edited m.before m'.before
  signature : ReflTransGen Edited m.signature m'.signature
  body : ReflTransGen Edited m.body m'.body
  behind : ReflTransGen Edited m.behind m'.behind

theorem Edits.refl (m : MainFunction) :
  Edits m m
  := ⟨.refl, .refl, .refl, .refl⟩

theorem Edits.trans {m m' m'' : MainFunction} (h : Edits m m') (h' : Edits m' m'') :
  Edits m m''
  := ⟨h.before.trans h'.before, h.signature.trans h'.signature, h.body.trans h'.body,
    h.behind.trans h'.behind⟩

end MainFunction

theorem not_mem_entryPoint_of_isBrace {c : Char} (hc : Brace.isBrace c) :
  c ∉ entryPoint
  := by
  rw [Brace.isBrace, Bool.or_eq_true, beq_iff_eq, beq_iff_eq] at hc
  rw [text_entryPoint]
  rcases hc with rfl | rfl <;> decide

theorem declares_iff :
  Declares t ↔ ∃ g s, (∀ c ∈ g, isBlank c) ∧ t = g ++ '(' :: s
  := by
  constructor
  · intro h
    obtain ⟨s, hs⟩ := List.head?_eq_some_iff.mp h
    refine ⟨t.takeWhile isBlank, s, fun c hc => List.mem_takeWhile_imp hc, ?_⟩
    rw [← hs, List.takeWhile_append_dropWhile]
  · rintro ⟨g, s, hg, rfl⟩
    rw [Declares, List.dropWhile_append_of_pos hg]
    rfl

theorem undiverted_iff :
  Undiverted before ↔ ∀ s r, before = s ++ (entryPoint ++ r) → '\x7b' ∉ r
  := by
  constructor
  · rintro h s r rfl hmem
    apply h (entryPoint ++ r)
    · simp
    · apply List.prefix_append
    · exact List.mem_append_right entryPoint hmem
  · intro h u hu hstarts
    obtain ⟨s, rfl⟩ := (List.mem_tails _ _).mp hu
    obtain ⟨r, rfl⟩ := hstarts
    rw [List.mem_append, not_or]
    exact ⟨not_mem_entryPoint_of_isBrace (by decide), h s r rfl⟩

/-- Whether a list of parameters starts shows in front of the brace. -/
theorem declares_append_iff (s t : Text) :
  Declares (s ++ '\x7b' :: t) ↔ Declares s
  := by
  rw [Declares, Declares, head?_dropWhile_append (by decide)]
  cases (s.dropWhile isBlank).head? with
  | none => simp
  | some c => rfl

/-- A declaration of `main` in a balanced text belongs to a function if a brace follows it. -/
theorem exists_mainFunction
    (hcode : Brace.Balanced (before ++ (entryPoint ++ after))) (hmain : Declares after)
    (hbrace : '\x7b' ∈ after) :
  ∃ m : MainFunction, m.before = before ∧ m.text = before ++ (entryPoint ++ after)
  := by
  obtain ⟨signature, rest, rfl, hsignature⟩ := List.eq_append_cons_of_mem hbrace
  have hassoc : before ++ (entryPoint ++ (signature ++ '\x7b' :: rest))
      = before ++ (entryPoint ++ signature) ++ '\x7b' :: rest := by simp
  rw [hassoc] at hcode ⊢
  obtain ⟨body, behind, rfl, hbody⟩ := hcode.exists_body
  rw [declares_append_iff] at hmain
  exact ⟨⟨before, signature, body, behind, hmain, hsignature, hbody⟩, rfl, rfl⟩

/-! ### Edits of the parts -/

theorem text_entryPoint_append (t : Text) :
  entryPoint ++ t = ['f', 'n', ' ', 'm', 'a', 'i'] ++ 'n' :: t
  := by
  rw [text_entryPoint]
  rfl

/-- The word for the entry point is not edited, and it divides what is. -/
theorem Edited.exists_entryPoint (h : Edited (s ++ (entryPoint ++ t)) r) :
  ∃ s' t', r = s' ++ (entryPoint ++ t') ∧ Edited s s' ∧ Edited t t'
  := by
  rw [text_entryPoint_append, ← List.append_assoc] at h
  obtain ⟨x, t', rfl, hx, ht⟩ := h.exists_append (by decide) (by decide)
  obtain ⟨s', y, rfl, hs, hy⟩ :=
    Edited.exists_append (t := ['n', ' ', 'm', 'a', 'i']) hx (by decide) (by decide)
  have hplain : ∀ c ∈ ['n', ' ', 'm', 'a', 'i'], c ∉ ['#', ']', 'd', '['] := by simp
  obtain rfl := hy.eq_of_not_mem hplain
  refine ⟨s', t', ?_, hs, ht⟩
  rw [text_entryPoint_append]
  simp

/-- Edits bring no word for the entry point. -/
theorem Edited.exists_of_entryPoint (h : Edited t (s' ++ (entryPoint ++ u))) :
  ∃ s v, t = s ++ (entryPoint ++ v) ∧ Edited s s' ∧ Edited v u
  := by
  rw [text_entryPoint] at h
  have hf : 'f' ∉ editChars := by
    rw [editChars, text_derivativeFactor]
    decide
  obtain ⟨s, v, rfl, hs, hv⟩ := h.exists_of_append_cons (by decide) (by decide) hf
  have hplain : ∀ c ∈ ['n', ' ', 'm', 'a', 'i', 'n'], c ∉ ['/', '(', '[', ']'] := by simp
  have hlast : ∀ c ∈ ['n', ' ', 'm', 'a', 'i', 'n'].getLast?, ¬ isBlank c := by
    rintro c ⟨⟩
    decide
  obtain ⟨u', rfl, hu⟩ := Edited.exists_of_append hv hplain hlast
  refine ⟨s, u', ?_, hs, hu⟩
  rw [text_entryPoint]
  rfl

theorem Edited.mem_iff (h : Edited t r) {c : Char} (hc : Brace.isBrace c) :
  c ∈ r ↔ c ∈ t
  := by
  have hfilter := congrArg (c ∈ ·) h.braces_eq
  simpa [hc] using hfilter

theorem Edited.balanced (h : Edited t r) (ht : Brace.Balanced t) :
  Brace.Balanced r
  := by
  rw [← Brace.balanced_filter_iff, h.braces_eq, Brace.balanced_filter_iff]
  exact ht

/-- A list of parameters still starts behind the blanks. -/
theorem Edited.declares (h : Edited t r) (ht : Declares t) :
  Declares r
  := by
  obtain ⟨g, s, hg, rfl⟩ := declares_iff.mp ht
  obtain ⟨g', s', rfl, hg', -⟩ := h.exists_append (by decide) (by decide)
  have hplain : ∀ c ∈ g, c ∉ ['#', ']', 'd', '['] := by
    intro c hc hmem
    have hblank := hg c hc
    simp only [List.mem_cons, List.not_mem_nil, or_false] at hmem
    rcases hmem with rfl | rfl | rfl | rfl <;> revert hblank <;> decide
  rw [hg'.eq_of_not_mem hplain]
  exact declares_iff.mpr ⟨g, s', hg, rfl⟩

/-- Edits neither divert the search nor set it right. -/
theorem Edited.undiverted_iff (h : Edited t r) :
  Undiverted r ↔ Undiverted t
  := by
  have hopen : Brace.isBrace '\x7b' := by decide
  rw [Finish.undiverted_iff, Finish.undiverted_iff]
  constructor
  · rintro hr s u rfl
    obtain ⟨s', u', rfl, -, hu⟩ := h.exists_entryPoint
    rw [← hu.mem_iff hopen]
    apply hr s' u' rfl
  · rintro ht s' u' rfl
    obtain ⟨s, u, rfl, -, hu⟩ := h.exists_of_entryPoint
    rw [hu.mem_iff hopen]
    apply ht s u rfl

namespace MainFunction

/-- An edited text has the function where the text had it. -/
theorem exists_edited (m : MainFunction) (h : Edited m.text r) :
  ∃ m' : MainFunction, m'.text = r ∧ m.Edits m' ∧ (Undiverted m'.before ↔ Undiverted m.before)
  := by
  obtain ⟨p, q, rfl, hp, hq⟩ := h.exists_append (by decide) (by decide)
  obtain ⟨body, behind, rfl, hbody, hbehind⟩ := hq.exists_append (by decide) (by decide)
  obtain ⟨before, signature, rfl, hbefore, hsignature⟩ := hp.exists_entryPoint
  have hunbraced : '\x7b' ∉ signature := by
    rw [hsignature.mem_iff (by decide)]
    exact m.unbraced
  refine ⟨⟨before, signature, body, behind, hsignature.declares m.declares, hunbraced,
    hbody.balanced m.balanced⟩, rfl, ?_, hbefore.undiverted_iff⟩
  exact ⟨.single hbefore, .single hsignature, .single hbody, .single hbehind⟩

theorem exists_edits (m : MainFunction) (h : ReflTransGen Edited m.text r) :
  ∃ m' : MainFunction, m'.text = r ∧ m.Edits m' ∧ (Undiverted m'.before ↔ Undiverted m.before)
  := by
  induction h with
  | refl => exact ⟨m, rfl, Edits.refl m, Iff.rfl⟩
  | tail _ hstep ih =>
    obtain ⟨m', rfl, hedits, hiff⟩ := ih
    obtain ⟨m'', rfl, hedits', hiff'⟩ := m'.exists_edited hstep
    exact ⟨m'', rfl, hedits.trans hedits', hiff'.trans hiff⟩

end MainFunction

/-! ### Code around the body -/

section Front

variable {front start finish : Text} {m : MainFunction}

theorem wrap_of_undiverted
    (hfront : ¬ entryPoint <:+: front) (hterminated : Terminated front)
    (hstart : Brace.Balanced start) (hfinish : finish ≠ []) (hm : Undiverted m.before) :
  Brace.wrap entryPoint start finish (front ++ m.text) = front ++ m.wrapped start finish
  := by
  have hbefore : ∀ s r, front ++ m.before = s ++ (entryPoint ++ r) → '\x7b' ∉ r := by
    intro s r heq
    have hoccurs : entryPoint <+: (front ++ m.before).drop s.length := by
      rw [heq, List.drop_left]
      apply List.prefix_append
    have hle := hterminated.length_le_of_prefix_drop not_mem_entryPoint hfront hoccurs
    obtain ⟨u, rfl⟩ := List.prefix_of_prefix_length_le (List.prefix_append front m.before)
      (heq ▸ List.prefix_append s _) hle
    rw [List.append_assoc] at heq
    exact undiverted_iff.mp hm u r (List.append_cancel_left heq)
  have hassoc : front ++ m.text = front ++ m.before ++ (entryPoint ++ m.signature)
      ++ '\x7b' :: (m.body ++ '\x7d' :: m.behind) := by
    simp [MainFunction.text]
  have hopens := Brace.opens_of_not_mem (not_mem_entryPoint_of_isBrace (by decide)) m.unbraced
    hbefore (m.body ++ '\x7d' :: m.behind)
  rw [hassoc, Brace.wrap_of_balanced hstart hfinish m.balanced hopens]
  simp [MainFunction.wrapped]

/-- If the search is diverted, the code for the start goes to a brace in front of the function. -/
theorem prefix_wrap_of_diverted
    (hfront : ¬ entryPoint <:+: front) (hterminated : Terminated front)
    (hstart : Brace.Balanced start) (hm : ¬ Undiverted m.before) (finish : Text) :
  ∃ s, s ++ ['\x7b'] <+: m.before ∧
    front ++ (s ++ '\x7b' :: start) <+: Brace.wrap entryPoint start finish (front ++ m.text)
  := by
  obtain ⟨u, r, hbefore, hmem⟩ : ∃ u r, m.before = u ++ (entryPoint ++ r) ∧ '\x7b' ∈ r := by
    rw [undiverted_iff] at hm
    push Not at hm
    exact hm
  obtain ⟨v, w, rfl, -⟩ := List.eq_append_cons_of_mem hmem
  have htext : front ++ m.text = front ++ u ++ (entryPoint ++ v) ++ '\x7b' :: (w
      ++ (entryPoint ++ m.signature) ++ '\x7b' :: (m.body ++ '\x7d' :: m.behind)) := by
    simp [MainFunction.text, hbefore]
  obtain ⟨o, hle, ho⟩ : ∃ o ≤ (front ++ u ++ (entryPoint ++ v)).length,
      Brace.Opens entryPoint (front ++ m.text) o := by
    rw [htext]
    apply Brace.exists_opens
  obtain ⟨i, hi, hio⟩ := ho.length_le (not_mem_entryPoint_of_isBrace (by decide))
  have hfirst := hterminated.length_le_of_prefix_drop not_mem_entryPoint hfront hi.1
  have hlast : o < front.length + m.before.length := by
    rw [hbefore]
    simp only [List.length_append, List.length_cons] at hle ⊢
    omega
  have hassoc : m.text = m.before
      ++ (entryPoint ++ m.signature ++ '\x7b' :: (m.body ++ '\x7d' :: m.behind)) := by
    simp [MainFunction.text]
  rw [hassoc] at ho ⊢
  apply Brace.exists_prefix_wrap hstart ho (hfirst.trans (by omega)) hlast (by simp)

end Front

/-! ### The code that is put in -/

/-- The fixed parts of the code that is put in at the start of the vertex stage. -/
def startParts : List Text :=
  ["\n  vertexInputs", "_", " = input;\n", "vertexInputs.vertexIndex = ",
    "vertexInputs_.vertexIndex;\n", "vertexInputs.instanceIndex = ",
    "vertexInputs_.instanceIndex;\n", "\n", "vertexInputs.", " = ", "(vertexInputs_.", ");",
    "vertexInputs_.", ";", "_int_"]

theorem not_mem_startParts {c : Char} (hc : Brace.isBrace c) :
  ∀ l ∈ startParts, c ∉ l
  := by
  have hall : ∀ l ∈ startParts, l.all (fun c => !Brace.isBrace c) := by
    rw [startParts]
    repeat rw [Text.ofString_ofList]
    decide +kernel
  intro l hl hmem
  have hplain := List.all_eq_true.mp (hall l hl) c hmem
  simp [hc] at hplain

theorem Unmentioned.not_mem (hd : Unmentioned d) {a : Attribute} (ha : a ∈ d.attributes)
    {c : Char} (hc : Brace.isBrace c) :
  c ∉ a.name ∧ c ∉ a.type
  := by
  obtain ⟨⟨-, hopen, hclose⟩, -, hopen', hclose'⟩ := hd.attribute ha
  rw [Brace.isBrace, Bool.or_eq_true, beq_iff_eq, beq_iff_eq] at hc
  rcases hc with rfl | rfl
  · exact ⟨hopen, hopen'⟩
  · exact ⟨hclose, hclose'⟩

theorem not_mem_conversion (hd : Unmentioned d) {a : Attribute} (ha : a ∈ d.attributes)
    {c : Char} (hc : Brace.isBrace c) :
  c ∉ a.conversion
  := by
  obtain ⟨hname, htype⟩ := hd.not_mem ha hc
  have hparts := not_mem_startParts hc
  simp only [startParts, List.forall_mem_cons] at hparts
  rw [Attribute.conversion, Attribute.rawName]
  split
  all_goals simp [hname, htype, hparts]

theorem not_mem_conversions (hd : Unmentioned d) {c : Char} (hc : Brace.isBrace c) :
  c ∉ conversions d
  := by
  have hparts := not_mem_startParts hc
  simp only [startParts, List.forall_mem_cons] at hparts
  have hne : c ≠ '\n' := by
    rintro rfl
    cases hc
  have hlines : c ∉ Text.unlines (d.attributes.map Attribute.conversion) := by
    rw [← List.singleton_infix_iff]
    apply Text.not_infix_unlines (List.cons_ne_nil c []) (by simpa using hne.symm)
    intro u hu
    obtain ⟨a, ha, rfl⟩ := List.mem_map.mp hu
    rw [List.singleton_infix_iff]
    apply not_mem_conversion hd ha hc
  rw [conversions]
  simp [hlines, hparts]

/-- The code that takes the inputs over has no braces. -/
theorem balanced_vertexStart (hd : Unmentioned d) :
  Brace.Balanced (vertexStart d)
  := by
  have hplain : ∀ {c : Char}, Brace.isBrace c → c ∉ vertexStart d := by
    intro c hc
    have hparts := not_mem_startParts hc
    simp only [startParts, List.forall_mem_cons] at hparts
    have hsuffix : c ∉ StageStruct.rawSuffix d := by
      rw [StageStruct.rawSuffix]
      split
      · simp [hparts]
      · apply List.not_mem_nil
    have hconversions : c ∉ if d.hasConverted then conversions d else [] := by
      split
      · apply not_mem_conversions hd hc
      · apply List.not_mem_nil
    rw [vertexStart, List.mem_append, not_or]
    refine ⟨?_, hconversions⟩
    simp [hsuffix, hparts]
  apply Brace.balanced_of_not_mem (hplain (by decide)) (hplain (by decide))

/-- The statement that flips the position of a fragment back closes its braces. -/
theorem balanced_fragmentStart (mode : Mode) (code : Text) :
  Brace.Balanced (fragmentStart mode code)
  := by
  rw [fragmentStart, positionFlip, ← Brace.balanced_filter_iff]
  repeat rw [Text.ofString_ofList]
  split
  · decide +kernel
  · decide +kernel

theorem vertexEnd_ne_nil (mode : Mode) :
  vertexEnd mode ≠ []
  := by
  cases mode <;> decide +kernel

theorem fragmentEnd_ne_nil :
  fragmentEnd ≠ []
  := by
  rw [fragmentEnd, Text.ofString_ofList]
  decide

/-! ### The finished stages -/

/-- A finished stage has its prologue and its epilogue in the body of the function, unless the
search for the entry point is diverted: then the prologue follows a brace in front of the
function. -/
def WrapsMain (m : MainFunction) (structs start finish stage : Text) : Prop :=
  (Undiverted m.before →
    stage = diagnostics (structs ++ m.text) ++ (structs ++ m.wrapped start finish)) ∧
  (¬ Undiverted m.before → ∃ s, s ++ ['\x7b'] <+: m.before ∧
    diagnostics (structs ++ m.text) ++ (structs ++ (s ++ '\x7b' :: start)) <+: stage)

theorem MainFunction.wrapsMain (m : MainFunction) {structs start finish : Text}
    (hstructs : ¬ entryPoint <:+: structs) (hterminated : Terminated structs)
    (hstart : Brace.Balanced start) (hfinish : finish ≠ []) :
  WrapsMain m structs start finish (wrap start finish (structs ++ m.text))
  := by
  constructor
  · intro hm
    rw [wrap, wrap_of_undiverted hstructs hterminated hstart hfinish hm]
  · intro hm
    obtain ⟨s, hs, hprefix⟩ := prefix_wrap_of_diverted hstructs hterminated hstart hm finish
    refine ⟨s, hs, ?_⟩
    rw [wrap]
    apply (List.prefix_append_right_inj _).mpr hprefix

/-- The prologue and the epilogue of both stages go to the start and to the end of the body of the
function `main`, which is where it was, unless the word for the entry point stands in front of a
brace further up. -/
theorem entryPoint_wrapped
    (hd : Unmentioned d) (hcode : Brace.Balanced (before ++ (entryPoint ++ after)))
    (hmain : Declares after) (hbrace : '\x7b' ∈ after) :
  ∃ m : MainFunction, m.before = before ∧ m.text = before ++ (entryPoint ++ after) ∧
    ∀ mode,
      (∃ m', m.Edits m' ∧ m'.text = body d m.text ∧
        (Undiverted m'.before ↔ Undiverted before) ∧
        WrapsMain m' (vertexStructs d) (vertexStart d) (vertexEnd mode) (vertex mode d m.text)) ∧
      ∃ m', m.Edits m' ∧ m'.text = flipDerivatives mode (body d m.text) ∧
        (Undiverted m'.before ↔ Undiverted before) ∧
        WrapsMain m' (fragmentStructs d m'.text) (fragmentStart mode m.text) fragmentEnd
          (fragment mode d m.text)
  := by
  obtain ⟨m, rfl, htext⟩ := exists_mainFunction hcode hmain hbrace
  refine ⟨m, rfl, htext, fun mode => ⟨?_, ?_⟩⟩
  · obtain ⟨m', hm', hedits, hiff⟩ := m.exists_edits (edits_body d m.text)
    refine ⟨m', hedits, hm', hiff, ?_⟩
    have hvertex : vertex mode d m.text
        = wrap (vertexStart d) (vertexEnd mode) (vertexStructs d ++ m'.text) := by
      rw [hm']
      rfl
    rw [hvertex]
    apply m'.wrapsMain (not_infix_vertexStructs hd) (terminated_vertexStructs d)
      (balanced_vertexStart hd) (vertexEnd_ne_nil mode)
  · obtain ⟨m', hm', hedits, hiff⟩ := m.exists_edits
      ((edits_body d m.text).trans (edits_flipDerivatives mode _))
    refine ⟨m', hedits, hm', hiff, ?_⟩
    have hfragment : fragment mode d m.text
        = wrap (fragmentStart mode m.text) fragmentEnd (fragmentStructs d m'.text ++ m'.text) := by
      rw [hm']
      rfl
    rw [hfragment]
    apply m'.wrapsMain (not_infix_fragmentStructs hd _) (terminated_fragmentStructs d _)
      (balanced_fragmentStart mode _) fragmentEnd_ne_nil

/-- Functions on both sides, an input that is converted and a strided array. -/
theorem entryPoint_wrapped_between :
  let d : Declarations :=
    { attributes := [⟨0, "bones", "vec4<f32>", some 4⟩], strided := ["weights"] }
  let before : Text := "fn scale(x : f32) -> f32 \x7b\n  return x;\n\x7d\n@vertex\n"
  let after : Text := "(input : VertexInputs) -> FragmentInputs \x7b\n"
    ++ "  if on \x7b s = weights[0]; \x7d\n\x7d\nfn mainHelper() \x7b\x7d\n"
  let code := before ++ (entryPoint ++ after)
  Unmentioned d ∧ Brace.Balanced code ∧ Declares after ∧ '\x7b' ∈ after ∧
    ∃ m : MainFunction, m.text = body d code ∧
      vertex .pure d code = diagnostics (vertexStructs d ++ m.text)
        ++ (vertexStructs d ++ m.wrapped (vertexStart d) (vertexEnd .pure))
  := by
  intro d before after code
  have hd : Unmentioned d := by decide +kernel
  have hcode : Brace.Balanced code := by decide +kernel
  have hmain : Declares after := by decide +kernel
  have hbrace : '\x7b' ∈ after := by decide +kernel
  have hbefore : Undiverted before := by decide +kernel
  refine ⟨hd, hcode, hmain, hbrace, ?_⟩
  obtain ⟨m, -, htext, hmodes⟩ := entryPoint_wrapped hd hcode hmain hbrace
  obtain ⟨m', -, hm', hiff, hwraps⟩ := (hmodes .pure).1
  rw [htext] at hm' hwraps
  exact ⟨m', hm', hwraps.1 (hiff.mpr hbefore)⟩

/-- A helper function in front of the entry point whose name starts like that of the entry point
gets the prologue and the epilogue, and the only function `main` gets neither. -/
theorem not_wrapped_mainHelper :
  let helper : Text := "fn mainHelper() \x7b"
  let main : Text := "\x7d\nfn main() \x7b\n\x7d"
  let code := helper ++ '\n' :: main
  Brace.Balanced code ∧
    (code.tails.filter fun t => entryPoint <+: t ∧ Declares (t.drop entryPoint.length)).length = 1 ∧
    vertex .pure {} code = reachabilityOff ++ (vertexStructs {}
      ++ (helper ++ (vertexStart {} ++ '\n' :: (vertexEnd .pure ++ '\n' :: main))))
  := by
  decide +kernel

end Finish

end ShaderPair
