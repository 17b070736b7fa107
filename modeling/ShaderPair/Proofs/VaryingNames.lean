import ShaderPair.Proofs.AllOrNothing
import ShaderPair.Proofs.DirectiveComments
import ShaderPair.Proofs.HostTypes
import ShaderPair.Proofs.Patterns
import ShaderPair.Proofs.VaryingLookUp

/-!
# The names of varyings

A `VaryingLine` is the declaration of a varying as it may be written: its qualifiers and its
precision may be left out.  From such a line the qualifiers, the type and a name are read, if the
type is on one line (`VaryingLine.varying?_text`).  The high precision is rather read as a precision
than as the beginning of a name: without a precision, a name that starts like it loses its front
(`VaryingLine.Swallowed`), and this is the only way in which a name is not read as it is written.
The varying is entered or looked up under the name that is read (`varyings_named`).
-/

namespace ShaderPair

open Pattern
open Text (IsIdentifier IsSolid Shut isBlank isInLine isSolid isWord)

/-! ### Types -/

namespace Declaration

variable {g s t : Text}

/-- A text can be the type in a declaration if it is on one line, apart from the blanks around it,
and does not consist of line breaks. -/
def IsTypeText (t : Text) : Prop := (∃ c ∈ t, isInLine c) ∧ '\n' ∉ Text.trim t

instance (t : Text) : Decidable (IsTypeText t) :=
  decidable_of_iff (t.any isInLine ∧ '\n' ∉ Text.trim t) (by rw [List.any_eq_true]; rfl)

theorem isInLine_iff {c : Char} :
  isInLine c ↔ c ≠ '\n'
  := by
  simp [isInLine]

theorem not_isBlank_semicolon :
  ¬ isBlank ';'
  := by
  decide

/-- The blanks in front of a semicolon end there. -/
theorem not_isBlank_head?_semicolon :
  ∀ c ∈ [';'].head?, ¬ isBlank c
  := by
  simpa using not_isBlank_semicolon

theorem not_mem_of_isBlank (hg : ∀ c ∈ g, isBlank c) :
  ';' ∉ g
  := fun h => not_isBlank_semicolon (hg _ h)

/-- A type on one line is read up to its semicolon, perhaps with blanks behind it. -/
theorem exists_upToLast_isInLine
    (hne : t ≠ []) (ht : '\n' ∉ t) (hcloser : ';' ∉ t) (hs : ∀ c ∈ s, isBlank c) :
  ∃ g, (∀ c ∈ g, isBlank c) ∧
    upToLast isInLine ';' (t ++ (s ++ [';'])) = [((t ++ g).reverse, [])]
  := by
  refine ⟨s.takeWhile isInLine, fun c hc => hs c (List.takeWhile_subset _ hc), ?_⟩
  have hclass : ∀ c ∈ t ++ s.takeWhile isInLine, isInLine c := by
    rw [List.forall_mem_append]
    refine ⟨fun c hc => isInLine_iff.mpr ?_, fun c hc => List.mem_takeWhile_imp hc⟩
    rintro rfl
    exact ht hc
  have hnone : ';' ∉ t ++ s.takeWhile isInLine := by
    rw [List.mem_append, not_or]
    exact ⟨hcloser, fun h => not_mem_of_isBlank hs (List.takeWhile_subset _ h)⟩
  have hempty : ¬ (t ++ s.takeWhile isInLine).reverse.isEmpty := by
    simp [hne]
  have hassoc : t ++ (s ++ [';'])
      = (t ++ s.takeWhile isInLine) ++ (s.dropWhile isInLine ++ [';']) := by
    rw [List.append_assoc, ← List.append_assoc (s.takeWhile isInLine),
      List.takeWhile_append_dropWhile]
  rw [hassoc, upToLast, upToLastAfter_append hclass hnone, List.append_nil]
  have hdrop := List.head?_dropWhile_not isInLine s
  have hblank : ∀ c ∈ s.dropWhile isInLine, isBlank c :=
    fun c hc => hs c ((List.dropWhile_suffix isInLine).subset hc)
  generalize s.dropWhile isInLine = r at hdrop hblank
  cases r with
  | nil =>
    rw [List.nil_append, upToLastAfter, if_pos (by decide), if_pos (by simpa using hempty)]
    rfl
  | cons c r =>
    have hsemicolon : (c :: r ++ [';']).dropWhile isBlank = [';'] :=
      (Define.takeWhile_dropWhile_append hblank not_isBlank_head?_semicolon).2
    rw [List.cons_append, upToLastAfter, if_neg (by simpa using hdrop), ← List.cons_append,
      hsemicolon]
    exact if_pos (by simpa using hempty)

/-- A text that is not on one line is not read. -/
theorem upToLast_isInLine_of_mem
    (ht : '\n' ∈ t) (hcloser : ';' ∉ t) (hlast : ∀ c ∈ t.getLast?, ¬ isBlank c) (s : Text) :
  upToLast isInLine ';' (t ++ s) = []
  := by
  have hne : t.dropWhile isInLine ≠ [] := by
    rw [ne_eq, List.dropWhile_eq_nil_iff, not_forall]
    exact ⟨'\n', fun h => absurd (h ht) (by decide)⟩
  have hclass : ∀ c ∈ t.takeWhile isInLine, isInLine c := fun c hc => List.mem_takeWhile_imp hc
  have hnone : ';' ∉ t.takeWhile isInLine := fun h => hcloser (List.takeWhile_subset _ h)
  have hassoc : t ++ s = t.takeWhile isInLine ++ (t.dropWhile isInLine ++ s) := by
    rw [← List.append_assoc, List.takeWhile_append_dropWhile]
  have hlast' : ∀ c ∈ (t.dropWhile isInLine).getLast?, ¬ isBlank c := by
    intro c hc
    apply hlast c
    rw [← List.takeWhile_append_dropWhile (p := isInLine) (l := t), List.getLast?_append,
      Option.mem_def.mp hc]
    rfl
  obtain ⟨d, hd, hhead⟩ := Text.exists_head?_dropWhile_append hne hlast' s
  have hsemicolon : d ≠ ';' := by
    rintro rfl
    exact hcloser ((List.dropWhile_suffix isInLine).subset hd)
  rw [hassoc, upToLast, upToLastAfter_append hclass hnone]
  have hdrop := List.head?_dropWhile_not isInLine t
  generalize t.dropWhile isInLine = r at hne hdrop hhead
  obtain ⟨c, r, rfl⟩ := List.exists_cons_of_ne_nil hne
  obtain ⟨r', hr'⟩ := List.head?_eq_some_iff.mp hhead
  rw [List.cons_append] at hr' ⊢
  rw [upToLastAfter, if_neg (by simpa using hdrop), hr']
  exact if_neg (by simp [hsemicolon])

/-- What is read as a type in front of the only semicolon. -/
theorem typePattern_append (hcloser : ';' ∉ t) :
  typePattern (t ++ [';']) = if IsTypeText t then [(Text.trim t, [])] else []
  := by
  obtain ⟨s, s', hs, hs', ht⟩ := Text.exists_trim t
  have hbare := Text.bare_trim t
  have hinside : ';' ∉ Text.trim t := fun h => hcloser ((Text.infix_trim t).subset h)
  have hread : ∀ g r, (∀ c ∈ g, isBlank c) → (∀ c ∈ r.head?, ¬ isBlank c) → t ++ [';'] = g ++ r →
      typePattern (t ++ [';'])
        = ((upToLast isInLine ';' r ++ nothing g ';' r).head?.map fun way =>
          (Text.trim way.1.reverse, way.2)).toList := by
    intro g r hg hr heq
    rw [heq, typePattern, bind_of_eq_singleton (Define.all_append hg hr), bind_apply, once, first?,
      orElse_apply]
    cases (upToLast isInLine ';' r ++ nothing g ';' r).head? <;> rfl
  by_cases hempty : Text.trim t = []
  · -- there are only blanks
    have hblank : ∀ c ∈ t, isBlank c := by
      rw [ht, hempty]
      simpa [or_imp, forall_and] using And.intro hs hs'
    rw [hread t [';'] hblank not_isBlank_head?_semicolon rfl]
    have hnone : upToLast isInLine ';' [';'] = [] := by decide
    rw [hnone, List.nil_append, nothing]
    by_cases hline : ∃ c ∈ t, isInLine c
    · have htype : IsTypeText t := ⟨hline, by simp [hempty]⟩
      rw [if_pos htype, if_pos (by simpa [List.any_eq_true] using hline), hempty]
      rfl
    · have htype : ¬ IsTypeText t := fun h => hline h.1
      rw [if_neg htype, if_neg (by simpa [List.any_eq_true] using hline)]
      rfl
  · obtain ⟨c, r, hr⟩ := List.exists_cons_of_ne_nil hempty
    have hhead : ¬ isBlank c := hbare.1 c (by rw [hr]; rfl)
    have hassoc : t ++ [';'] = s ++ (Text.trim t ++ (s' ++ [';'])) := by
      conv_lhs => rw [ht]
      simp only [List.append_assoc]
    rw [hread s _ hs (by rw [hr]; simpa using hhead) hassoc]
    by_cases hline : '\n' ∈ Text.trim t
    · have htype : ¬ IsTypeText t := fun h => h.2 hline
      have hne : c ≠ ';' := by
        rintro rfl
        rw [hr] at hinside
        exact hinside List.mem_cons_self
      rw [if_neg htype, upToLast_isInLine_of_mem hline hinside hbare.2, List.nil_append, nothing,
        if_neg (by rw [hr]; simp [hne])]
      rfl
    · have htype : IsTypeText t := by
        have hmem : c ∈ t := (Text.infix_trim t).subset (hr ▸ List.mem_cons_self)
        refine ⟨⟨c, hmem, isInLine_iff.mpr ?_⟩, hline⟩
        rintro rfl
        exact hhead (by decide)
      obtain ⟨g, hg, heq⟩ := exists_upToLast_isInLine hempty hline hinside hs'
      have htrim := Text.trim_append (s := []) (List.forall_mem_nil _) hg hbare
      rw [List.nil_append] at htrim
      rw [if_pos htype, heq, List.singleton_append, List.head?_cons, Option.map_some,
        List.reverse_reverse, htrim]
      rfl

/-! ### Variables -/

variable {name type : Text}

/-- A name and a type around the only colon are read. -/
theorem solidVariable_append
    (hne : name ≠ []) (hname : IsSolid name) (hcloser : ':' ∉ name) (hg : ∀ c ∈ g, isBlank c)
    (hcolon : ':' ∉ type) (hsemicolon : ';' ∉ type) (htype : IsTypeText type) :
  solidVariable (name ++ (g ++ ':' :: (type ++ [';']))) = [(⟨name, Text.trim type⟩, [])]
  := by
  have hrest : ':' ∉ type ++ [';'] := by
    simp [hcolon]
  obtain ⟨more, heq, hmore, -⟩ :=
    exists_upToLast_append hne hname hcloser (by decide) hg (type ++ [';'])
  have hnil : more = [] := by
    rw [List.eq_nil_iff_forall_not_mem]
    exact fun way hway => hrest ((hmore way hway).subset List.mem_cons_self)
  rw [solidVariable, onceThen, heq, hnil, List.nil_append, List.findSome?_singleton, first?,
    bind_apply, typePattern_append hsemicolon, if_pos htype, List.flatMap_singleton,
    List.reverse_reverse]
  rfl

/-- Where no run ends at a colon no variable is read. -/
theorem solidVariable_of_upToLast (h : upToLast isSolid ':' t = []) :
  solidVariable t = []
  := by
  rw [solidVariable, onceThen, h]
  rfl

/-- No variable is read from a text whose only colon has no type behind it. -/
theorem absent_solidVariable
    (hs : ':' ∉ s) (hcolon : ':' ∉ type) (hsemicolon : ';' ∉ type) (htype : ¬ IsTypeText type) :
  Absent solidVariable (s ++ ':' :: (type ++ [';']))
  := by
  intro r hr
  have hrest : ':' ∉ type ++ [';'] := by
    simp [hcolon]
  rw [solidVariable, onceThen, List.findSome?_eq_none_iff.mpr]
  · rfl
  intro way hway
  have hsuffix := suffix_of_not_mem hs ((suffix_of_mem_upToLast hway).trans hr)
  rcases List.suffix_cons_iff.mp hsuffix with heq | hsuffix
  · obtain ⟨-, heq⟩ := List.cons.inj heq
    rw [heq, first?, bind_apply, typePattern_append hsemicolon, if_neg htype]
    rfl
  · exact absurd (hsuffix.subset List.mem_cons_self) hrest

end Declaration

/-! ### Lines -/

/-- The precision that may be stated for a varying. -/
inductive Precision where
  | high
  | low

/-- The word for a precision. -/
def Precision.word : Precision → Text
  | high => "highp"
  | low => "lowp"

/-- Blanks between two words. -/
structure Gap extends Blanks where
  ne : text ≠ []

/-- A word that may be left out, with the blanks behind it. -/
def qualifier {α : Type} (word : α → Text) : Option (α × Gap) → Text
  | none => []
  | some (a, gap) => word a ++ gap.text

/-- The declaration of a varying as it is written. -/
structure VaryingLine where
  /-- How the varying is interpolated. -/
  interpolation : Option (Interpolation × Gap)
  /-- Where it is interpolated. -/
  sampling : Option (Sampling × Gap)
  /-- The blanks behind the keyword. -/
  gap : Gap
  /-- The precision. -/
  precision : Option (Precision × Gap)
  /-- The name. -/
  name : Text
  /-- The blanks behind the name. -/
  afterName : Blanks
  /-- The type, perhaps with blanks around it. -/
  type : Text
  isIdentifier : IsIdentifier name
  /-- The type ends where the declaration does. -/
  inside : ':' ∉ type ∧ ';' ∉ type

namespace VaryingLine

variable (v : VaryingLine)

/-- What stands behind the precision. -/
def variableText : Text := v.name ++ (v.afterName.text ++ ':' :: (v.type ++ [';']))

/-- What stands behind the interpolation and the sampling. -/
def keywordText : Text :=
  "varying" ++ (v.gap.text ++ (qualifier Precision.word v.precision ++ v.variableText))

/-- The text of a line. -/
def text : Text :=
  qualifier Interpolation.word v.interpolation
    ++ (qualifier Sampling.word v.sampling ++ v.keywordText)

/-- The front of the name is taken for a precision. -/
def Swallowed : Prop :=
  v.precision.isNone ∧ ("highp" : Text) <+: v.name ∧ v.name ≠ ("highp" : Text)

instance : Decidable v.Swallowed := inferInstanceAs (Decidable (_ ∧ _))

/-- The name that is read. -/
def readName : Text :=
  if v.Swallowed then v.name.drop ("highp" : Text).length else v.name

/-- What is read from a line. -/
def form : VaryingForm where
  interpolation := (v.interpolation.map Prod.fst).getD .perspective
  sampling := (v.sampling.map Prod.fst).getD .center
  name := v.readName
  type := Text.trim v.type

/-- The name that is read is another one exactly if its front is taken for a precision. -/
theorem readName_eq_iff :
  v.readName = v.name ↔ ¬ v.Swallowed
  := by
  rw [readName]
  split
  next h =>
    apply iff_of_false _ (not_not_intro h)
    obtain ⟨more, hmore⟩ := h.2.1
    have hlength : 0 < ("highp" : Text).length := by
      rw [Text.ofString_ofList]
      decide
    intro heq
    have hdrop := congrArg List.length heq
    rw [← hmore, List.length_drop, List.length_append] at hdrop
    omega
  next h => exact iff_of_true rfl h

/-! ### The name and the type -/

theorem not_mem_of_isIdentifier {w : Text} (hw : IsIdentifier w) :
  ':' ∉ w
  := fun h => absurd (hw.2 _ h) (by decide)

theorem not_mem_blanks (gap : Blanks) :
  ':' ∉ gap.text
  := fun h => absurd (gap.isBlank _ h) (by decide)

section

variable {β : Type} {f : VariableForm → β} {v}

/-- A variable behind some blanks. -/
def variablePattern (f : VariableForm → β) : Pattern β := do
  blanks
  let form ← Declaration.solidVariable
  return f form

/-- A name behind some blanks is read with the type. -/
theorem first?_variable
    (htype : Declaration.IsTypeText v.type) {name gap : Text} (hname : IsIdentifier name)
    (hgap : ∀ c ∈ gap, isBlank c) :
  first? (variablePattern f) (gap ++ (name ++ (v.afterName.text ++ ':' :: (v.type ++ [';']))))
    = some (f ⟨name, Text.trim v.type⟩, [])
  := by
  have hsolid : IsSolid name := Text.isSolid_of_isIdentifier hname
  have hhead := not_isBlank_of_isIdentifier hname
  rw [first?, variablePattern, bind_of_eq_singleton (blanks_append hgap (hhead _)),
    bind_of_eq_singleton (Declaration.solidVariable_append hname.1 hsolid
      (not_mem_of_isIdentifier hname) v.afterName.isBlank v.inside.1 v.inside.2 htype)]
  rfl

/-- No name is read where there is none in front of the colon. -/
theorem first?_afterName :
  first? (variablePattern f) (v.afterName.text ++ ':' :: (v.type ++ [';'])) = none
  := by
  have hcolon : ¬ isBlank ':' := by decide
  have hrest : ':' ∉ v.type ++ [';'] := by
    simp [v.inside.1]
  have hnone : upToLast isSolid ':' (':' :: (v.type ++ [';'])) = [] := by
    rw [upToLast, upToLastAfter, if_pos (Text.isSolid_iff.mpr hcolon)]
    exact upToLastAfter_of_not_mem hrest
  have hgap := blanks_append v.afterName.isBlank
    (show ∀ c ∈ (':' :: (v.type ++ [';'])).head?, ¬ isBlank c by simpa using hcolon)
  rw [first?, variablePattern, bind_of_eq_singleton hgap,
    bind_apply, Declaration.solidVariable_of_upToLast hnone]
  rfl

/-- A word is not read as a name if another word follows it. -/
theorem first?_word {word : Text} (hword : IsIdentifier word) (gap : Gap) :
  first? (variablePattern f) (word ++ (gap.text ++ v.variableText)) = none
  := by
  have hhead := not_isBlank_of_isIdentifier hword (gap.text ++ v.variableText)
  have hshut : Shut ':' (word ++ (gap.text ++ v.variableText)) := by
    obtain ⟨b, hb⟩ := List.exists_mem_of_ne_nil _ gap.ne
    have hassoc : word ++ (gap.text ++ v.variableText)
        = (word ++ (gap.text ++ v.name)) ++ (v.afterName.text ++ ':' :: (v.type ++ [';'])) := by
      simp only [variableText, List.append_assoc]
    rw [hassoc]
    refine Text.shut_append_of_isBlank (b := b) (by simp [hb]) (gap.isBlank b hb) ?_ ?_ _
    · intro c hc
      rw [← List.append_assoc, List.getLast?_append_of_ne_nil _ v.isIdentifier.1] at hc
      exact Text.isSolid_of_isIdentifier v.isIdentifier c (List.mem_of_getLast? hc)
    · simp [not_mem_of_isIdentifier hword, not_mem_of_isIdentifier v.isIdentifier, not_mem_blanks]
  have hnone : upToLast isSolid ':' (word ++ (gap.text ++ v.variableText)) = [] :=
    upToLastAfter_of_shut hshut
  rw [first?, variablePattern, bind_of_eq_singleton (blanks_of_head? hhead), bind_apply,
    Declaration.solidVariable_of_upToLast hnone]
  rfl

/-- A word in front of the colon is in front of what follows the name. -/
theorem prefix_name {word : Text} (hword : IsIdentifier word) (h : word <+: v.variableText) :
  word <+: v.name
  := by
  obtain ⟨d, hd, hnot⟩ :
      ∃ d ∈ (v.afterName.text ++ ':' :: (v.type ++ [';'])).head?, ¬ isWord d := by
    obtain ⟨gap, hgap⟩ := v.afterName
    cases gap with
    | nil => exact ⟨':', rfl, by decide⟩
    | cons b gap => exact ⟨b, rfl, Text.not_isWord_of_isBlank (hgap b List.mem_cons_self)⟩
  exact prefix_of_not_mem hd (fun hmem => hnot (hword.2 d hmem)) h

/-- A precision is read in one of three ways. -/
theorem first?_precision_bind (p : Pattern β) (t : Text) :
  first? (Declaration.precision >>= fun _ => p) t
    = (first? (word "highp" >>= fun _ => p) t).or
      ((first? p t).or (first? (word "lowp" >>= fun _ => p) t))
  := by
  have hways : (Declaration.precision >>= fun _ => p) t
      = (word "highp" >>= fun _ => p) t ++ (p t ++ (word "lowp" >>= fun _ => p) t) := by
    simp only [Declaration.precision, bind_apply, orElse_apply, pure_apply, List.flatMap_append,
      List.flatMap_singleton]
  rw [first?, hways, List.head?_append, List.head?_append]
  rfl

theorem first?_word_bind (w : Text) (p : Pattern β) (t : Text) :
  first? (word w >>= fun _ => p) (w ++ t) = first? p t
  := by
  rw [first?, bind_of_eq_singleton (Define.word_append w t)]
  rfl

/-- A precision that is stated is passed over. -/
theorem first?_precision_stated (htype : Declaration.IsTypeText v.type) (q : Precision × Gap) :
  first? (Declaration.precision >>= fun _ => variablePattern f)
      (qualifier Precision.word (some q) ++ v.variableText)
    = some (f ⟨v.name, Text.trim v.type⟩, [])
  := by
  obtain ⟨precision, gap⟩ := q
  have hread : first? (variablePattern f) (gap.text ++ v.variableText)
      = some (f ⟨v.name, Text.trim v.type⟩, []) :=
    first?_variable htype v.isIdentifier gap.isBlank
  rw [first?_precision_bind, qualifier, List.append_assoc]
  cases precision with
  | high =>
    rw [Precision.word, first?_word_bind, hread]
    rfl
  | low =>
    have hdiverge : Diverge ("highp" : Text) ("lowp" : Text) := by
      rw [Text.ofString_ofList, Text.ofString_ofList]
      decide
    have hlow : IsIdentifier ("lowp" : Text) := by
      rw [Text.ofString_ofList]
      decide
    have hhigh : first? (word "highp" >>= fun _ => variablePattern f)
        (("lowp" : Text) ++ (gap.text ++ v.variableText)) = none := by
      rw [first?, bind_apply, word_of_diverge hdiverge]
      rfl
    rw [Precision.word, hhigh, first?_word hlow gap, first?_word_bind, hread]
    rfl

theorem variableText_of_append {front more : Text} (h : front ++ more = v.name) :
  v.variableText = front ++ (more ++ (v.afterName.text ++ ':' :: (v.type ++ [';'])))
  := by
  rw [variableText, ← h, List.append_assoc]

/-- The front of a name is taken for the high precision if there is something left of the name. -/
theorem first?_precision_swallowed
    (htype : Declaration.IsTypeText v.type) {more : Text} (hmore : "highp" ++ more = v.name)
    (hne : more ≠ []) :
  first? (Declaration.precision >>= fun _ => variablePattern f) v.variableText
    = some (f ⟨more, Text.trim v.type⟩, [])
  := by
  have hidentifier : IsIdentifier more :=
    ⟨hne, fun d hd => v.isIdentifier.2 d (hmore ▸ List.mem_append_right _ hd)⟩
  have hread := first?_variable (f := f) htype hidentifier (List.forall_mem_nil _)
  rw [List.nil_append] at hread
  rw [first?_precision_bind, variableText_of_append hmore, first?_word_bind, hread]
  rfl

/-- Another name is read as it is written. -/
theorem first?_precision_kept
    (htype : Declaration.IsTypeText v.type)
    (hname : ¬ (("highp" : Text) <+: v.name ∧ v.name ≠ ("highp" : Text))) :
  first? (Declaration.precision >>= fun _ => variablePattern f) v.variableText
    = some (f ⟨v.name, Text.trim v.type⟩, [])
  := by
  have hread := first?_variable (f := f) htype v.isIdentifier (List.forall_mem_nil _)
  rw [List.nil_append, ← variableText] at hread
  have hhigh : first? (word "highp" >>= fun _ => variablePattern f) v.variableText = none := by
    by_cases hstarts : ("highp" : Text) <+: v.name
    · -- there is nothing left of the name
      have hmore : ("highp" : Text) ++ [] = v.name := by
        rw [List.append_nil]
        exact (not_not.mp fun h => hname ⟨hstarts, h⟩).symm
      rw [variableText_of_append hmore, first?_word_bind, List.nil_append, first?_afterName]
    · have hidentifier : IsIdentifier ("highp" : Text) := by
        rw [Text.ofString_ofList]
        decide
      have hword : word "highp" v.variableText = [] := by
        rw [word, if_neg]
        rw [List.isPrefixOf_iff_prefix]
        exact fun h => hstarts (prefix_name hidentifier h)
      rw [first?, bind_apply, hword]
      rfl
  rw [first?_precision_bind, hhigh, hread]
  rfl

/-- Behind the precision the name is read, or what is left of it. -/
theorem first?_precision (htype : Declaration.IsTypeText v.type) :
  first? (Declaration.precision >>= fun _ => variablePattern f)
      (qualifier Precision.word v.precision ++ v.variableText)
    = some (f ⟨v.readName, Text.trim v.type⟩, [])
  := by
  by_cases hswallowed : v.Swallowed
  · obtain ⟨hprecision, ⟨more, hmore⟩, hne⟩ := id hswallowed
    have hmore' : more ≠ [] := by
      rintro rfl
      rw [List.append_nil] at hmore
      exact hne hmore.symm
    rw [Option.isNone_iff_eq_none.mp hprecision, qualifier, List.nil_append,
      first?_precision_swallowed htype hmore hmore', readName, if_pos hswallowed, ← hmore,
      List.drop_left]
  · rw [v.readName_eq_iff.mpr hswallowed]
    cases hprecision : v.precision with
    | none =>
      rw [qualifier, List.nil_append]
      apply first?_precision_kept htype
      exact fun h => hswallowed ⟨by rw [hprecision]; rfl, h⟩
    | some q => exact first?_precision_stated htype q

end

/-! ### The qualifiers -/

theorem isIdentifier_interpolation (interpolation : Interpolation) :
  IsIdentifier interpolation.word
  := by
  cases interpolation <;> rw [Interpolation.word, Text.ofString_ofList] <;> decide

theorem isIdentifier_sampling (sampling : Sampling) :
  IsIdentifier sampling.word
  := by
  cases sampling <;> rw [Sampling.word, Text.ofString_ofList] <;> decide

theorem isIdentifier_precision (precision : Precision) :
  IsIdentifier precision.word
  := by
  cases precision <;> rw [Precision.word, Text.ofString_ofList] <;> decide

theorem not_isBlank_qualifier
    {α : Type} {word : α → Text} {rest : Text} (hword : ∀ a, IsIdentifier (word a))
    (hrest : ∀ c ∈ rest.head?, ¬ isBlank c) (q : Option (α × Gap)) :
  ∀ c ∈ (qualifier word q ++ rest).head?, ¬ isBlank c
  := by
  cases q with
  | none => exact hrest
  | some q =>
    rw [qualifier, List.append_assoc]
    exact not_isBlank_of_isIdentifier (hword q.1) _

/-- A qualifier is read if it is stated. -/
theorem first?_qualifier
    {α β : Type} {choices : List (Text × α)} {word : α → Text} {f : Option α → Pattern β}
    {rest : Text} {way : β × Text} (q : Option (α × Gap))
    (hword : ∀ a t, first? (oneOf choices) (word a ++ t) = some (a, t))
    (hnone : oneOf choices rest = []) (hsolid : ∀ c ∈ rest.head?, ¬ isBlank c)
    (hf : first? (f (q.map Prod.fst)) rest = some way) :
  first? (do
    let a ← optional (oneOf choices)
    blanks
    f a) (qualifier word q ++ rest) = some way
  := by
  cases q with
  | none =>
    have hoptional : first? (optional (oneOf choices)) rest = some (none, rest) := by
      rw [first?, optional_apply, hnone]
      rfl
    have hblanks : first? blanks rest = some ((), rest) := by
      rw [first?, blanks_of_head? hsolid]
      rfl
    exact first?_bind hoptional (first?_bind hblanks hf)
  | some q =>
    obtain ⟨a, gap⟩ := q
    have hoptional : first? (optional (oneOf choices)) (word a ++ (gap.text ++ rest))
        = some (some a, gap.text ++ rest) := by
      obtain ⟨ways, hways⟩ := List.head?_eq_some_iff.mp (hword a (gap.text ++ rest))
      rw [first?, optional_apply, hways]
      rfl
    have hblanks : first? blanks (gap.text ++ rest) = some ((), rest) := by
      rw [first?, blanks_append gap.isBlank hsolid]
      rfl
    rw [qualifier, List.append_assoc]
    exact first?_bind hoptional (first?_bind hblanks hf)

theorem first?_interpolations (interpolation : Interpolation) (t : Text) :
  first? (oneOf Declaration.interpolations) (interpolation.word ++ t) = some (interpolation, t)
  := by
  cases interpolation with
  | flat => exact first?_oneOf_append _ _ _ _
  | linear =>
    exact (first?_oneOf_of_diverge (by decide +kernel) _ _ _).trans (first?_oneOf_append _ _ _ _)
  | perspective =>
    exact (first?_oneOf_of_diverge (by decide +kernel) _ _ _).trans <|
      (first?_oneOf_of_diverge (by decide +kernel) _ _ _).trans (first?_oneOf_append _ _ _ _)

theorem first?_samplings (sampling : Sampling) (t : Text) :
  first? (oneOf Declaration.samplings) (sampling.word ++ t) = some (sampling, t)
  := by
  cases sampling with
  | center => exact first?_oneOf_append _ _ _ _
  | centroid =>
    exact (first?_oneOf_of_diverge (by decide +kernel) _ _ _).trans (first?_oneOf_append _ _ _ _)
  | sample =>
    exact (first?_oneOf_of_diverge (by decide +kernel) _ _ _).trans <|
      (first?_oneOf_of_diverge (by decide +kernel) _ _ _).trans (first?_oneOf_append _ _ _ _)

/-- No interpolation can be read in front of the keyword, with the sampling or without it. -/
theorem oneOf_interpolations :
  oneOf Declaration.interpolations (qualifier Sampling.word v.sampling ++ v.keywordText) = []
  := by
  rw [keywordText]
  cases v.sampling with
  | none =>
    rw [qualifier, List.nil_append]
    exact oneOf_of_diverge (by decide +kernel) _
  | some q =>
    obtain ⟨sampling, gap⟩ := q
    rw [qualifier, List.append_assoc]
    cases sampling <;> exact oneOf_of_diverge (by decide +kernel) _

/-- The keyword is read, and what follows it. -/
theorem first?_keyword {β : Type} {f : VariableForm → β} (htype : Declaration.IsTypeText v.type) :
  first? (word "varying" >>= fun _ => blanks1 >>= fun _ => Declaration.precision >>= fun _ =>
      variablePattern f) v.keywordText
    = some (f ⟨v.readName, Text.trim v.type⟩, [])
  := by
  have hvariable : ∀ c ∈ v.variableText.head?, ¬ isBlank c :=
    not_isBlank_of_isIdentifier v.isIdentifier _
  have hsolid := not_isBlank_qualifier isIdentifier_precision hvariable v.precision
  have hgap : first? blanks1
        (v.gap.text ++ (qualifier Precision.word v.precision ++ v.variableText))
      = some ((), qualifier Precision.word v.precision ++ v.variableText) := by
    rw [first?, blanks1_append v.gap.ne v.gap.isBlank hsolid]
    rfl
  rw [keywordText, first?_word_bind]
  exact first?_bind hgap (first?_precision htype)

/-- A line is read with its qualifiers and its type, if the type can be read. -/
theorem first?_text (htype : Declaration.IsTypeText v.type) :
  first? Declaration.varyingPattern v.text = some (v.form, [])
  := by
  have hvarying : IsIdentifier ("varying" : Text) := by
    rw [Text.ofString_ofList]
    decide
  have hkeyword : ∀ c ∈ v.keywordText.head?, ¬ isBlank c := not_isBlank_of_isIdentifier hvarying _
  have hrest := not_isBlank_qualifier isIdentifier_sampling hkeyword v.sampling
  have hstart : ∀ c ∈ v.text.head?, ¬ isBlank c :=
    not_isBlank_qualifier isIdentifier_interpolation hrest v.interpolation
  have htext : first? blanks v.text = some ((), v.text) := by
    rw [first?, blanks_of_head? hstart]
    rfl
  apply first?_bind htext
  apply first?_qualifier v.interpolation first?_interpolations v.oneOf_interpolations hrest
  apply first?_qualifier v.sampling first?_samplings _ hkeyword
  · exact v.first?_keyword htype
  · exact oneOf_of_diverge (by decide +kernel) _

/-! ### Lines that cannot be read -/

theorem not_mem_qualifier
    {α : Type} {word : α → Text} (hword : ∀ a, IsIdentifier (word a)) (q : Option (α × Gap)) :
  ':' ∉ qualifier word q
  := by
  cases q with
  | none => exact List.not_mem_nil
  | some q => simp [qualifier, not_mem_of_isIdentifier (hword q.1), not_mem_blanks]

/-- The colon in front of the type is the only one. -/
theorem exists_front :
  ∃ front, ':' ∉ front ∧ v.text = front ++ ':' :: (v.type ++ [';'])
  := by
  have hvarying : ':' ∉ ("varying" : Text) := by
    rw [Text.ofString_ofList]
    decide
  refine ⟨qualifier Interpolation.word v.interpolation ++ (qualifier Sampling.word v.sampling
    ++ ("varying" ++ (v.gap.text ++ (qualifier Precision.word v.precision
      ++ (v.name ++ v.afterName.text))))), ?_, ?_⟩
  · simp [not_mem_qualifier, isIdentifier_interpolation, isIdentifier_sampling,
      isIdentifier_precision, hvarying, not_mem_blanks, not_mem_of_isIdentifier v.isIdentifier]
  · simp only [text, keywordText, variableText, List.append_assoc]

/-- Nothing is read from a line whose type cannot be read. -/
theorem absent_text (htype : ¬ Declaration.IsTypeText v.type) :
  Absent Declaration.varyingPattern v.text
  := by
  obtain ⟨front, hfront, heq⟩ := v.exists_front
  rw [heq]
  have hvariable := Declaration.absent_solidVariable hfront v.inside.1 v.inside.2 htype
  have hprecision : Advances Declaration.precision :=
    (advances_word _).orElse ((advances_pure _).orElse (advances_word _))
  have hqualifier : ∀ {α : Type} (choices : List (Text × α)), Advances (optional (oneOf choices)) :=
    fun choices => (advances_oneOf choices).optional
  refine .bind_right (fun _ => ?_) advances_blanks
  refine .bind_right (fun _ => ?_) (hqualifier _)
  refine .bind_right (fun _ => ?_) advances_blanks
  refine .bind_right (fun _ => ?_) (hqualifier _)
  refine .bind_right (fun _ => ?_) advances_blanks
  refine .bind_right (fun _ => ?_) (advances_word _)
  refine .bind_right (fun _ => ?_) advances_blanks1
  refine .bind_right (fun _ => ?_) hprecision
  refine .bind_right (fun _ => ?_) advances_blanks
  apply hvariable.bind_left

/-- A line declares what is read from it, if its type can be read. -/
theorem varying?_text :
  Declaration.varying? v.text = if Declaration.IsTypeText v.type then some v.form else none
  := by
  split
  next htype => exact find?_of_first? (v.first?_text htype)
  next htype => exact find?_of_absent (v.absent_text htype)

end VaryingLine

/-! ### Effects -/

namespace Compile

/-- Enters the varying that a line declares, if it declares one, and gives the text in place of the
line. -/
def processVarying (constants : OrderedMap Text Text) (stage : Stage) (line : Text) :
    Compile (Option Text) :=
  declareIf constants stage line ((Declaration.varying? line).map .varying)

variable {constants : OrderedMap Text Text} {form : VaryingForm} {line : Text} {c : Context}

/-- A varying of the vertex stage is entered if there are locations for it, and if the first of them
can be written. -/
theorem declareVarying_apply
    {e : Extent} (he : Extent.ofType constants form.type = .ok e) (c : Context) :
  let first := c.interface.nextVarying
  let next := first + ShaderType.locationSize form.type * e.room
  let limit := c.limits.varyingLocations
  declareVarying constants form c
    = if next ≤ limit then
        if Text.isWritable first then
          ⟨.ok (), e.warnings form.name, [], c.enter (.varying form e)⟩
        else ⟨.error .unwritableNumber, e.warnings form.name, [],
          (c.withNextLocation .varying next).withLocation .varying form.name first⟩
      else ⟨.error (.ofLocations .varying form.type next limit), e.warnings form.name, [],
        c.withNextLocation .varying next⟩
  := by
  intro first next limit
  have hall : (LocatedForm.numbers c first (.varying constants form)).all Text.isWritable
      = Text.isWritable first := Bool.and_true _
  have hdeclare := LocatedForm.declare_apply (f := .varying constants form) c he
  change _ = ite _ (ite ((LocatedForm.numbers c first _).all _ = true) _ _) _ at hdeclare
  rw [hall] at hdeclare
  exact hdeclare

theorem declareVarying_of_error
    {fault : Fault} (hfault : Extent.ofType constants form.type = .error fault) (c : Context) :
  declareVarying constants form c = ⟨.error fault, [], [], c⟩
  := LocatedForm.declare_fail (f := .varying constants form) c hfault

theorem declareIf_vertex (form : VaryingForm) (line : Text) (c : Context) :
  let o := declareVarying constants form c
  declareIf constants .vertex line (some (.varying form)) c
    = ⟨o.result.map fun _ => some [], o.warnings, o.taken, o.context⟩
  := by
  intro o
  have hbind : declareIf constants .vertex line (some (.varying form))
      = declareVarying constants form >>= fun _ => pure (some []) := by
    simp only [declareIf, declare, bind_assoc, pure_bind]
  rw [hbind]
  cases hresult : o.result with
  | error fault =>
    rw [bind_of_error hresult]
    rfl
  | ok u =>
    rw [bind_of_ok hresult]
    simp only [pure, List.append_nil]
    rfl

end Compile

/-- The text of a line is read in whole.  If the type is on one line, the vertex stage enters the
varying, and the fragment stage looks it up, under the name that is read.  This is the name as it is
written unless there is no precision and the name starts like one. -/
theorem varyings_named
    (v : VaryingLine) (constants : OrderedMap Text Text) (c : Context) :
  let vertex := Compile.processVarying constants .vertex v.text c
  let fragment := Compile.processVarying constants .fragment v.text c
  (v.readName = v.name ↔ ¬ v.Swallowed) ∧
  (¬ Declaration.IsTypeText v.type →
    vertex = ⟨.ok none, [], [], c⟩ ∧ fragment = ⟨.ok none, [], [], c⟩) ∧
  (Declaration.IsTypeText v.type →
    (match Extent.ofType constants (Text.trim v.type) with
    | .error fault => vertex = ⟨.error fault, [], [], c⟩
    | .ok e =>
      let first := c.interface.nextVarying
      let next := first + ShaderType.locationSize (Text.trim v.type) * e.room
      if next ≤ c.limits.varyingLocations then
        if Text.isWritable first then
          vertex = ⟨.ok (some []), e.warnings v.readName, [], c.enter (.varying v.form e)⟩ ∧
          vertex.context.interface.varyings = c.interface.varyings.insert v.readName first ∧
          vertex.context.interface.declarations.varyings = c.interface.declarations.varyings
            ++ [⟨first, v.form.interpolation, v.form.sampling, v.readName, Text.trim v.type⟩]
        else
          vertex = ⟨.error .unwritableNumber, e.warnings v.readName, [],
            (c.withNextLocation .varying next).withLocation .varying v.readName first⟩
      else
        vertex = ⟨.error (.ofLocations .varying (Text.trim v.type) next c.limits.varyingLocations),
          e.warnings v.readName, [], c.withNextLocation .varying next⟩) ∧
    fragment = ⟨.ok (some []), if c.interface.varyings.contains v.readName then []
      else [.undeclaredVarying v.readName], [], c⟩)
  := by
  intro vertex fragment
  have hvertex : vertex = Compile.declareIf constants .vertex v.text
      ((Declaration.varying? v.text).map .varying) c := rfl
  have hfragment : fragment = Compile.declareIf constants .fragment v.text
      ((Declaration.varying? v.text).map .varying) c := rfl
  rw [v.varying?_text] at hvertex hfragment
  refine ⟨v.readName_eq_iff, fun htype => ?_, fun htype => ⟨?_, ?_⟩⟩
  · rw [hvertex, hfragment, if_neg htype]
    exact ⟨rfl, rfl⟩
  · rw [if_pos htype, Option.map_some, Compile.declareIf_vertex] at hvertex
    cases he : Extent.ofType constants (Text.trim v.type) with
    | error fault => rw [hvertex, Compile.declareVarying_of_error he]; rfl
    | ok e =>
      have hdeclare : Compile.declareVarying constants v.form c = _ :=
        Compile.declareVarying_apply he c
      dsimp only
      split
      next hle =>
        have hlocated := hdeclare.trans (if_pos hle)
        split
        next hfirst =>
          rw [hvertex, hlocated.trans (if_pos hfirst)]
          exact ⟨rfl, rfl, rfl⟩
        next hfirst =>
          rw [hvertex, hlocated.trans (if_neg hfirst)]
          rfl
      next hle =>
        rw [hvertex, hdeclare.trans (if_neg hle)]
        rfl
  · rw [hfragment, if_pos htype]
    exact Compile.declareIf_of_varying v.form v.text c

namespace VaryingLine

/-- A varying of low precision with a name that starts like the high one. -/
def low : VaryingLine where
  interpolation := some (.linear, ⟨.space, Blanks.space_ne⟩)
  sampling := some (.centroid, ⟨.space, Blanks.space_ne⟩)
  gap := ⟨.space, Blanks.space_ne⟩
  precision := some (.low, ⟨.space, Blanks.space_ne⟩)
  name := "highpx"
  afterName := .space
  type := " f32"
  isIdentifier := by decide +kernel
  inside := by decide +kernel

/-- The same name without a precision. -/
def plain : VaryingLine where
  interpolation := none
  sampling := none
  gap := ⟨.space, Blanks.space_ne⟩
  precision := none
  name := "highpx"
  afterName := .space
  type := " f32"
  isIdentifier := by decide +kernel
  inside := by decide +kernel

end VaryingLine

/-- With a precision in front of it the name is registered as it is written. -/
theorem varyings_named_low :
  let c := Context.fresh .engine {} ∅
  let vertex := Compile.processVarying ∅ .vertex VaryingLine.low.text c
  let fragment := Compile.processVarying ∅ .fragment VaryingLine.low.text c
  VaryingLine.low.text = "linear centroid varying lowp highpx : f32;" ∧
    Declaration.IsTypeText VaryingLine.low.type ∧
    vertex.context.interface.varyings.keys = ["highpx"] ∧
    vertex.context.interface.declarations.varyings.map Varying.field
      = ["  @location(0) @interpolate(linear, centroid) highpx : f32,"] ∧
    fragment.warnings = [.undeclaredVarying "highpx"]
  := by
  intro c vertex fragment
  have htype : Declaration.IsTypeText VaryingLine.low.type := by decide +kernel
  obtain ⟨-, -, hread⟩ := varyings_named VaryingLine.low ∅ c
  obtain ⟨hvertex, hfragment⟩ := hread htype
  have hextent : Extent.ofType ∅ (Text.trim VaryingLine.low.type) = .ok ⟨"f32", 0, none⟩ := by
    decide +kernel
  rw [hextent] at hvertex
  dsimp only at hvertex
  rw [if_pos (by decide +kernel), if_pos (by decide +kernel)] at hvertex
  obtain ⟨-, hnames, hvaryings⟩ := hvertex
  refine ⟨by decide +kernel, htype, ?_, ?_, ?_⟩
  · rw [show vertex.context.interface.varyings = _ from hnames]
    decide +kernel
  · rw [show vertex.context.interface.declarations.varyings = _ from hvaryings]
    decide +kernel
  · rw [show fragment = _ from hfragment]
    decide +kernel

/-- Without a precision the front of the name is taken for one: another name is registered, and the
fragment stage misses that one. -/
theorem not_named_plain :
  let c := Context.fresh .engine {} ∅
  let vertex := Compile.processVarying ∅ .vertex VaryingLine.plain.text c
  let fragment := Compile.processVarying ∅ .fragment VaryingLine.plain.text c
  VaryingLine.plain.text = "varying highpx : f32;" ∧
    vertex.context.interface.varyings.keys = ["x"] ∧
    vertex.context.interface.declarations.varyings.map Varying.field
      = ["  @location(0) @interpolate(perspective, center) x : f32,"] ∧
    fragment.warnings = [.undeclaredVarying "x"]
  := by
  decide +kernel

end ShaderPair
