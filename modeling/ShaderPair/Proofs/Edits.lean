import ShaderPair.Proofs.BraceMatching
import ShaderPair.Proofs.DerivativeFlip

/-!
# Edits

Before its entry point is wrapped, a stage is edited: directives become comments, accesses to
strided arrays go to the fields of the elements, and derivatives get a factor.  Each of these puts
something next to single characters or takes blanks away in front of a bracket (`Finish.Edited`);
the passes are made one after the other (`Finish.edits_body`, `Finish.edits_flipDerivatives`).
Where a character stands that no edit is about, an edited text divides as the text did
(`Finish.Edited.exists_append`, `Finish.Edited.exists_of_append`).  Edits neither bring nor take
away braces (`Finish.Edited.braces_eq`).
-/

namespace ShaderPair

open Text (isBlank)
open Relation (ReflTransGen)

namespace Finish

variable {c x : Char} {code e r s s' t u w : Text} {d : Declarations}

/-! ### Edits of characters -/

theorem text_derivativeFactor :
  derivativeFactor = ['(', '-', 'i', 'n', 't', 'e', 'r', 'n', 'a', 'l', 's', '.', 'y', 'F', 'a',
    'c', 't', 'o', 'r', '_', ')', '*']
  := by
  rw [derivativeFactor, Text.ofString_eq]
  rfl

/-- A text opens a bracket behind blanks. -/
def OpensBracket (t : Text) : Prop := (t.dropWhile isBlank).head? = some '['

/-- What may stand for a character in front of some text: the character, a directive behind two
slashes, nothing for a blank in front of a bracket, a closing bracket with the field of an element,
or the first letter of a derivative with the factor. -/
inductive Edit (rest : Text) : Char → Text → Prop
  | keep (c : Char) : Edit rest c [c]
  | comment : Edit rest '#' ['/', '/', '#']
  | close {c : Char} (hblank : isBlank c) (hopens : OpensBracket rest) : Edit rest c []
  | field : Edit rest ']' [']', '.', 'e', 'l']
  | flip : Edit rest 'd' (derivativeFactor ++ ['d'])

/-- A text is edited character by character. -/
inductive Edited : Text → Text → Prop
  | nil : Edited [] []
  | cons {c : Char} {e r t : Text} (head : Edit t c e) (tail : Edited t r) :
    Edited (c :: t) (e ++ r)

theorem opensBracket_cons_of_isBlank (hc : isBlank c) (t : Text) :
  OpensBracket (c :: t) ↔ OpensBracket t
  := by
  rw [OpensBracket, OpensBracket, List.dropWhile_cons_of_pos hc]

theorem opensBracket_cons_of_not_isBlank (hc : ¬ isBlank c) (t : Text) :
  OpensBracket (c :: t) ↔ c = '['
  := by
  rw [OpensBracket, List.dropWhile_cons_of_neg hc, List.head?_cons, Option.some_inj]

/-- What is not blank keeps what is behind it out of sight. -/
theorem head?_dropWhile_append (hx : ¬ isBlank x) (s t : Text) :
  ((s ++ x :: t).dropWhile isBlank).head? = (s.dropWhile isBlank).head?.or (some x)
  := by
  induction s with
  | nil =>
    rw [List.nil_append, List.dropWhile_cons_of_neg hx]
    rfl
  | cons c s ih =>
    rw [List.cons_append]
    by_cases hc : isBlank c
    · rw [List.dropWhile_cons_of_pos hc, List.dropWhile_cons_of_pos hc, ih]
    · rw [List.dropWhile_cons_of_neg hc, List.dropWhile_cons_of_neg hc]
      rfl

theorem opensBracket_append_iff (hblank : ¬ isBlank x) (hx : x ≠ '[') (s t : Text) :
  OpensBracket (s ++ x :: t) ↔ OpensBracket s
  := by
  rw [OpensBracket, OpensBracket, head?_dropWhile_append hblank]
  cases (s.dropWhile isBlank).head? with
  | none => simp [hx]
  | some c => rfl

/-- A text that ends solid and has no bracket opens none. -/
theorem not_opensBracket_append
    (hne : w ≠ []) (hw : '[' ∉ w) (hlast : ∀ c ∈ w.getLast?, ¬ isBlank c) (t : Text) :
  ¬ OpensBracket (w ++ t)
  := by
  obtain ⟨v, x, rfl⟩ := List.eq_nil_or_concat w |>.resolve_left hne
  simp only [List.concat_eq_append, List.mem_append, List.mem_singleton, not_or] at hw
  have hx : ¬ isBlank x := hlast x (by simp)
  rw [List.concat_eq_append, List.append_assoc, List.singleton_append,
    opensBracket_append_iff hx (Ne.symm hw.2)]
  intro hopens
  exact hw.1 ((List.dropWhile_suffix isBlank).subset (List.mem_of_mem_head? hopens))

theorem Edit.append_iff (hblank : ¬ isBlank x) (hx : x ≠ '[') :
  Edit (s ++ x :: t) c e ↔ Edit s c e
  := by
  constructor
  all_goals
    intro h
    cases h with
    | keep => apply Edit.keep
    | comment => apply Edit.comment
    | close hc hopens =>
      apply Edit.close hc
      simpa only [opensBracket_append_iff hblank hx] using hopens
    | field => apply Edit.field
    | flip => apply Edit.flip

/-- Most characters are kept. -/
theorem Edit.eq_of_not_mem
    (h : Edit t c e) (hblank : isBlank c → ¬ OpensBracket t) (hc : c ∉ ['#', ']', 'd']) :
  e = [c]
  := by
  cases h with
  | keep => rfl
  | comment => simp at hc
  | close hspace hopens => exact absurd hopens (hblank hspace)
  | field => simp at hc
  | flip => simp at hc

/-! ### Edited texts -/

theorem Edited.keep (h : Edited t r) (c : Char) :
  Edited (c :: t) (c :: r)
  := Edited.cons (Edit.keep c) h

theorem Edited.append_left (h : Edited t r) (s : Text) :
  Edited (s ++ t) (s ++ r)
  := by
  induction s with
  | nil => exact h
  | cons c s ih => apply ih.keep

/-- In front of a character that no edit is about, the text is edited on its own, and so is the
text behind it. -/
theorem Edited.exists_append
    (h : Edited (s ++ x :: t) r) (hblank : ¬ isBlank x) (hx : x ∉ ['#', ']', 'd', '[']) :
  ∃ s' t', r = s' ++ x :: t' ∧ Edited s s' ∧ Edited t t'
  := by
  simp only [List.mem_cons, List.not_mem_nil, or_false, not_or] at hx
  obtain ⟨hhash, hclose, hflip, hopen⟩ := hx
  induction s generalizing r with
  | nil =>
    cases h with
    | cons head tail =>
      obtain rfl := head.eq_of_not_mem (fun hspace => absurd hspace hblank)
        (by simp [hhash, hclose, hflip])
      exact ⟨[], _, rfl, Edited.nil, tail⟩
  | cons c s ih =>
    cases h with
    | cons head tail =>
      obtain ⟨s', t', rfl, hs, ht⟩ := ih tail
      refine ⟨_, t', (List.append_assoc _ s' _).symm, ?_, ht⟩
      apply Edited.cons ((Edit.append_iff hblank hopen).mp head) hs

/-- Where there is nothing to edit, nothing is edited. -/
theorem Edited.eq_of_not_mem (h : Edited t r) (ht : ∀ c ∈ t, c ∉ ['#', ']', 'd', '[']) :
  r = t
  := by
  induction h with
  | nil => rfl
  | @cons c e r t head _ ih =>
    obtain ⟨hc, ht⟩ := List.forall_mem_cons.mp ht
    have hblank : ¬ OpensBracket t := by
      intro hopens
      have hmem := (List.dropWhile_suffix isBlank).subset (List.mem_of_mem_head? hopens)
      exact ht '[' hmem (by simp)
    have hkeep : c ∉ ['#', ']', 'd'] := fun hmem => hc (List.mem_append_left ['['] hmem)
    rw [head.eq_of_not_mem (fun _ => hblank) hkeep, ih ht]
    rfl

/-! ### Back to the source -/

/-- The characters that edits put in. -/
def editChars : Text := ['/', '#', ']', '.', 'e', 'l', 'd'] ++ derivativeFactor

/-- A character that edits do not put in was there. -/
theorem Edit.eq_of_mem (h : Edit t c e) (hx : x ∈ e) (hplain : x ∉ editChars) :
  c = x ∧ e = [x]
  := by
  cases h with
  | keep =>
    obtain rfl := List.mem_singleton.mp hx
    exact ⟨rfl, rfl⟩
  | comment =>
    simp only [editChars, List.mem_append, List.mem_cons] at hx hplain
    tauto
  | close => cases hx
  | field =>
    simp only [editChars, List.mem_append, List.mem_cons] at hx hplain
    tauto
  | flip =>
    simp only [editChars, List.mem_append, List.mem_cons] at hx hplain
    tauto

/-- A bracket stays the first thing behind blanks. -/
theorem Edited.opensBracket (h : Edited t r) (ht : OpensBracket t) :
  OpensBracket r
  := by
  have hsolid : ∀ {c : Char}, ¬ isBlank c → c ≠ '[' → ∀ t, ¬ OpensBracket (c :: t) := by
    intro c hc hopen t hopens
    exact hopen ((opensBracket_cons_of_not_isBlank hc t).mp hopens)
  induction h with
  | nil => exact ht
  | @cons c e r t head tail ih =>
    cases head with
    | keep =>
      rw [List.singleton_append]
      by_cases hc : isBlank c
      · rw [opensBracket_cons_of_isBlank hc] at ht ⊢
        apply ih ht
      · rwa [opensBracket_cons_of_not_isBlank hc] at ht ⊢
    | comment => exact absurd ht (hsolid (by decide) (by decide) _)
    | close _ hopens => apply ih hopens
    | field => exact absurd ht (hsolid (by decide) (by decide) _)
    | flip => exact absurd ht (hsolid (by decide) (by decide) _)

/-- A character that edits do not put in divides the source where it divides the edited text. -/
theorem Edited.exists_of_append_cons
    (h : Edited t (s' ++ x :: u)) (hblank : ¬ isBlank x) (hopen : x ≠ '[') (hx : x ∉ editChars) :
  ∃ s v, t = s ++ x :: v ∧ Edited s s' ∧ Edited v u
  := by
  generalize hy : s' ++ x :: u = y at h
  induction h generalizing s' with
  | nil => simp at hy
  | @cons c e r t head tail ih =>
    have hbehind : ∀ a, s' = e ++ a → a ++ x :: u = r →
        ∃ s v, c :: t = s ++ x :: v ∧ Edited s s' ∧ Edited v u := by
      rintro a rfl hr
      obtain ⟨s, v, rfl, hs, hv⟩ := ih hr
      refine ⟨c :: s, v, rfl, ?_, hv⟩
      apply Edited.cons ((Edit.append_iff hblank hopen).mp head) hs
    rcases List.append_eq_append_iff.mp hy with ⟨a, rfl, hr⟩ | ⟨a, rfl, hr⟩
    · cases a with
      | nil => exact hbehind [] (by simp) hr
      | cons a a' =>
        obtain ⟨rfl, rfl⟩ := List.cons.inj hr
        obtain ⟨rfl, heq⟩ := head.eq_of_mem (by simp) hx
        obtain ⟨rfl, rfl⟩ : s' = [] ∧ a' = [] := by
          cases s' <;> simp_all
        exact ⟨[], t, rfl, Edited.nil, tail⟩
    · exact hbehind a rfl hr.symm

/-- A word that ends solid and has no characters with which edits start was there. -/
theorem Edited.exists_of_append
    (h : Edited t (w ++ u)) (hw : ∀ c ∈ w, c ∉ ['/', '(', '[', ']'])
    (hlast : ∀ c ∈ w.getLast?, ¬ isBlank c) :
  ∃ v, t = w ++ v ∧ Edited v u
  := by
  induction w generalizing t with
  | nil => exact ⟨t, rfl, h⟩
  | cons x w ih =>
    have hopen : '[' ∉ x :: w := fun hmem => hw '[' hmem (by simp)
    have hnot := not_opensBracket_append (List.cons_ne_nil x w) hopen hlast u
    obtain ⟨hx, hw⟩ := List.forall_mem_cons.mp hw
    have hlast' : ∀ c ∈ w.getLast?, ¬ isBlank c := by
      intro c hc
      cases w with
      | nil => cases hc
      | cons d w =>
        apply hlast
        rwa [List.getLast?_cons_cons]
    generalize hy : x :: w ++ u = y at h
    cases h with
    | nil => cases hy
    | cons head tail =>
      cases head with
      | keep =>
        obtain ⟨rfl, rfl⟩ := List.cons.inj hy
        obtain ⟨v, rfl, hv⟩ := ih tail hw hlast'
        exact ⟨v, rfl, hv⟩
      | comment =>
        obtain ⟨rfl, -⟩ := List.cons.inj hy
        simp at hx
      | close _ hopens =>
        rw [List.nil_append] at hy
        subst hy
        exact absurd (tail.opensBracket hopens) hnot
      | field =>
        obtain ⟨rfl, -⟩ := List.cons.inj hy
        simp at hx
      | flip =>
        rw [text_derivativeFactor] at hy
        obtain ⟨rfl, -⟩ := List.cons.inj hy
        simp at hx

/-! ### Braces -/

/-- Edits are not about braces. -/
theorem Edited.braces_eq (h : Edited t r) :
  r.filter Brace.isBrace = t.filter Brace.isBrace
  := by
  induction h with
  | nil => rfl
  | @cons c e r t head _ ih =>
    rw [List.filter_append, ih]
    cases head with
    | keep => rw [← List.filter_append, List.singleton_append]
    | comment => rfl
    | close hblank =>
      have hc : ¬ Brace.isBrace c := by
        intro hbrace
        rw [Brace.isBrace, Bool.or_eq_true, beq_iff_eq, beq_iff_eq] at hbrace
        rcases hbrace with rfl | rfl <;> revert hblank <;> decide
      rw [List.filter_cons_of_neg hc]
      rfl
    | field => rfl
    | flip =>
      rw [text_derivativeFactor]
      rfl

/-! ### The passes -/

/-- Blanks in front of a bracket may go. -/
theorem Edited.close (h : Edited ('[' :: t) r) (hs : ∀ c ∈ s, isBlank c) :
  Edited (s ++ '[' :: t) r
  := by
  induction s with
  | nil => exact h
  | cons c s ih =>
    obtain ⟨hc, hs⟩ := List.forall_mem_cons.mp hs
    have hopens : OpensBracket (s ++ '[' :: t) := by
      rw [OpensBracket, List.dropWhile_append_of_pos hs]
      rfl
    apply Edited.cons (Edit.close hc hopens) (ih hs)

theorem edited_commentOut (t : Text) :
  Edited t (Define.commentOut t)
  := by
  have hfrom : ∀ slashes, Edited t (Define.commentOutAfter slashes t) := by
    intro slashes
    induction slashes, t using Define.commentOut_induction with
    | nil => apply Edited.nil
    | directive slashes t hstarts hslashes ih =>
      rw [Define.commentOutAfter_of_starts hstarts hslashes]
      apply Edited.cons Edit.comment ih
    | char slashes c t hc ih =>
      rw [Define.commentOutAfter_of_imp hc]
      apply ih.keep
  apply hfrom 0

theorem edited_redirectAccess (array t : Text) :
  Edited t (LeftOver.redirectAccess array t)
  := by
  rw [LeftOver.redirectAccess_eq]
  generalize (none : Option Char) = before
  induction before, t using LeftOver.pass_induction array with
  | nil before => apply Edited.nil
  | cons before c t hnone ih =>
    rw [LeftOver.redirectFrom_cons hnone]
    apply ih.keep
  | access before gap index rest hgap hindex hfound ih =>
    rw [LeftOver.redirectFrom_access hfound, LeftOver.text_opening, LeftOver.text_field]
    simp only [List.append_assoc, List.cons_append, List.nil_append]
    apply Edited.append_left
    apply Edited.close _ hgap
    apply Edited.keep
    apply Edited.append_left
    apply Edited.cons Edit.field ih

/-- Turning directives into comments and redirecting accesses are edits. -/
theorem edits_body (d : Declarations) (code : Text) :
  ReflTransGen Edited code (body d code)
  := by
  have hall : ∀ (arrays : List Text) (t : Text),
      ReflTransGen Edited t (LeftOver.redirectAccesses arrays t) := by
    intro arrays
    induction arrays with
    | nil =>
      intro t
      apply ReflTransGen.refl
    | cons array arrays ih =>
      intro t
      rw [LeftOver.redirectAccesses, List.foldl_cons]
      apply ReflTransGen.head (edited_redirectAccess array t) (ih _)
  apply ReflTransGen.head (edited_commentOut code) (hall _ _)

/-- Flipping derivatives is an edit. -/
theorem edits_flipDerivatives (mode : Mode) (t : Text) :
  ReflTransGen Edited t (flipDerivatives mode t)
  := by
  cases mode with
  | pure => apply ReflTransGen.refl
  | engine =>
    apply ReflTransGen.single
    have hne : derivativeName ≠ [] := isIdentifier_derivativeName.1
    rw [flipDerivatives_eq_replace, Text.replace, if_neg (by simpa using hne)]
    induction t using Text.replaceAfter_induction hne (derivativeFactor ++ derivativeName) with
    | nil => apply Edited.nil
    | cons c t r ih => apply ih.keep
    | word t r ih =>
      rw [text_derivativeName]
      have hrest := ih.append_left ['p', 'd', 'y']
      have hflip := Edited.cons Edit.flip hrest
      simpa using hflip

end Finish

end ShaderPair
