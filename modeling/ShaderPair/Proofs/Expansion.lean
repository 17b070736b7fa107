import ShaderPair.Proofs.Words
import Mathlib.Logic.Relation
import Mathlib.Logic.Function.Basic

/-!
# Expansion

Some names have values, which may hold names themselves.  The expansion of some words replaces
each name by the expansion of the words of its value (`Define.Expands`); there is at most one.
A name may be given its value later than others: if the words are expanded for the other names
already, it is enough to put the expansion of its value in its place (`Define.Expands.add`).

Only identifiers have values.  In the words of a text they are surrounded by other characters,
which stay.  Hence an expansion consists of words again (`Define.Expands.isWords`), and two
words can only come to stand next to each other in it if the second one starts the expansion of
a word that stood there (`Define.Expands.isChain`).
-/

namespace ShaderPair

namespace Define

open Text (words IsIdentifier IsWords Separate)
open Relation (ReflTransGen TransGen)

/-- Words in which all names are replaced by the expansions of their values. -/
inductive Expands (values : Text → Option Text) : List Text → List Text → Prop
  | nil : Expands values [] []
  | keep {w : Text} {ws us : List Text} :
    values w = none → Expands values ws us → Expands values (w :: ws) (w :: us)
  | replace {w v : Text} {ws vs us : List Text} :
    values w = some v → Expands values (words v) vs → Expands values ws us →
      Expands values (w :: ws) (vs ++ us)

/-- The value of one name holds another word. -/
def Mentions (values : Text → Option Text) (n m : Text) : Prop :=
  ∃ v, values n = some v ∧ m ∈ words v

/-- The value of one name starts with another word. -/
def StartsWith (values : Text → Option Text) (n m : Text) : Prop :=
  ∃ v, values n = some v ∧ m ∈ (words v).head?

theorem StartsWith.mentions {values : Text → Option Text} {n m : Text}
    (h : StartsWith values n m) :
  Mentions values n m
  := by
  obtain ⟨v, hv, hm⟩ := h
  exact ⟨v, hv, List.mem_of_mem_head? hm⟩

/-- Names lead to names of lower rank only, if their values mention only such names. -/
theorem rank_lt_of_mentions
    {values : Text → Option Text} {rank : Text → Nat}
    (h : ∀ n m, Mentions values n m → (values m).isSome → rank m < rank n) {n m : Text}
    (hnm : TransGen (Mentions values) n m) (hm : (values m).isSome) :
  rank m < rank n
  := by
  induction hnm with
  | single hnm => apply h _ _ hnm hm
  | @tail b c _ hbc ih =>
    have hb : (values b).isSome := by
      obtain ⟨v, hv, -⟩ := hbc
      rw [hv]
      rfl
    apply (h b c hbc hm).trans (ih hb)

/-- Names do not lead back to themselves if their values mention only names of lower rank. -/
theorem not_mentions_self
    {values : Text → Option Text} {rank : Text → Nat}
    (h : ∀ n m, Mentions values n m → (values m).isSome → rank m < rank n) (n : Text) :
  ¬ TransGen (Mentions values) n n
  := by
  intro hnn
  obtain ⟨_, ⟨v, hv, -⟩, -⟩ := TransGen.head'_iff.mp hnn
  apply (rank_lt_of_mentions h hnn (by rw [hv]; rfl)).false

namespace Expands

variable {values : Text → Option Text} {ws us : List Text}

/-! ### Existence and uniqueness -/

theorem eq_nil (h : Expands values [] us) :
  us = []
  := by
  cases h
  rfl

/-- Words without values are their own expansion. -/
theorem of_eq_none (h : ∀ w ∈ ws, values w = none) :
  Expands values ws ws
  := by
  induction ws with
  | nil => apply Expands.nil
  | cons w ws ih =>
    obtain ⟨hw, hws⟩ := List.forall_mem_cons.mp h
    apply Expands.keep hw (ih hws)

/-- There is at most one expansion. -/
theorem unique {us' : List Text} (h : Expands values ws us) (h' : Expands values ws us') :
  us = us'
  := by
  induction h generalizing us' with
  | nil => rw [h'.eq_nil]
  | keep hw _ ih =>
    cases h' with
    | keep _ hus => rw [ih hus]
    | replace hv _ _ => cases hw.symm.trans hv
  | replace hv _ _ ihv ih =>
    cases h' with
    | keep hw _ => cases hw.symm.trans hv
    | replace hv' hvs hus =>
      obtain rfl := Option.some.inj (hv.symm.trans hv')
      rw [ihv hvs, ih hus]

/-- Words are expanded part by part. -/
theorem of_append {ws' : List Text} (h : Expands values (ws ++ ws') us) :
  ∃ us₁ us₂, us = us₁ ++ us₂ ∧ Expands values ws us₁ ∧ Expands values ws' us₂
  := by
  induction ws generalizing us with
  | nil => exact ⟨[], us, rfl, .nil, h⟩
  | cons w ws ih =>
    cases h with
    | keep hw hrest =>
      obtain ⟨us₁, us₂, rfl, h₁, h₂⟩ := ih hrest
      exact ⟨w :: us₁, us₂, rfl, .keep hw h₁, h₂⟩
    | @replace _ _ _ vs _ hv hvs hrest =>
      obtain ⟨us₁, us₂, rfl, h₁, h₂⟩ := ih hrest
      exact ⟨vs ++ us₁, us₂, by rw [List.append_assoc], .replace hv hvs h₁, h₂⟩

/-- Words without values stay in front of an expansion. -/
theorem of_append_of_eq_none
    {ws' : List Text} (hws : ∀ w ∈ ws, values w = none) (h : Expands values (ws ++ ws') us) :
  ∃ us', us = ws ++ us' ∧ Expands values ws' us'
  := by
  obtain ⟨us₁, us', rfl, h₁, h'⟩ := h.of_append
  rw [h₁.unique (of_eq_none hws)]
  exact ⟨us', rfl, h'⟩

/-- Names replaced by the words of their values, and this some times over. -/
def expandTo (values : Text → Option Text) : (depth : Nat) → List Text → List Text
  | 0, ws => ws
  | depth + 1, ws => ws.flatMap fun w =>
    match values w with
    | none => [w]
    | some v => expandTo values depth (words v)

/-- Replacing names deep enough gives the expansion. -/
theorem expands_expandTo
    {depth : Nat} (h : ∀ u ∈ expandTo values depth ws, values u = none) :
  Expands values ws (expandTo values depth ws)
  := by
  induction depth generalizing ws with
  | zero => apply of_eq_none h
  | succ depth ih =>
    rw [expandTo] at h ⊢
    induction ws with
    | nil => apply Expands.nil
    | cons w ws ihws =>
      rw [List.flatMap_cons, List.forall_mem_append] at h
      rw [List.flatMap_cons]
      cases hw : values w with
      | none => apply Expands.keep hw (ihws h.2)
      | some v =>
        rw [hw] at h
        apply Expands.replace hw (ih h.1) (ihws h.2)

/-- What names replaced deep enough differ from is not the expansion. -/
theorem not_expands_of_ne
    {depth : Nat} (h : ∀ u ∈ expandTo values depth ws, values u = none)
    (hne : expandTo values depth ws ≠ us) :
  ¬ Expands values ws us
  := fun hus => hne ((expands_expandTo h).unique hus)

/-! ### The words of an expansion -/

/-- What holds of all words and of the words of all values holds of the words of the
expansion. -/
theorem forall_mem
    {P : Text → Prop} (h : Expands values ws us) (hws : ∀ w ∈ ws, P w)
    (hvalues : ∀ n v, values n = some v → ∀ w ∈ words v, P w) :
  ∀ u ∈ us, P u
  := by
  induction h with
  | nil => exact hws
  | keep _ _ ih =>
    obtain ⟨hw, hws⟩ := List.forall_mem_cons.mp hws
    apply List.forall_mem_cons.mpr ⟨hw, ih hws⟩
  | replace hv _ _ ihv ih =>
    obtain ⟨-, hws⟩ := List.forall_mem_cons.mp hws
    apply List.forall_mem_append.mpr ⟨ihv (hvalues _ _ hv), ih hws⟩

/-- No word of an expansion has a value. -/
theorem eq_none_of_mem (h : Expands values ws us) :
  ∀ u ∈ us, values u = none
  := by
  induction h with
  | nil => intro u hu; cases hu
  | keep hw _ ih =>
    rw [List.forall_mem_cons]
    exact ⟨hw, ih⟩
  | replace _ _ _ ihv ih => apply List.forall_mem_append.mpr ⟨ihv, ih⟩

/-- A word of an expansion comes from one of the words through values that mention it. -/
theorem exists_mentions (h : Expands values ws us) :
  ∀ u ∈ us, ∃ w ∈ ws, ReflTransGen (Mentions values) w u
  := by
  induction h with
  | nil => intro u hu; cases hu
  | @keep w ws us _ _ ih =>
    intro u hu
    rcases List.mem_cons.mp hu with rfl | hu
    · exact ⟨u, List.mem_cons_self, .refl⟩
    · obtain ⟨x, hx, hxu⟩ := ih u hu
      exact ⟨x, List.mem_cons_of_mem w hx, hxu⟩
  | @replace w v ws vs us hv _ _ ihv ih =>
    intro u hu
    rcases List.mem_append.mp hu with hu | hu
    · obtain ⟨x, hx, hxu⟩ := ihv u hu
      exact ⟨w, List.mem_cons_self, .head ⟨v, hv, hx⟩ hxu⟩
    · obtain ⟨x, hx, hxu⟩ := ih u hu
      exact ⟨x, List.mem_cons_of_mem w hx, hxu⟩

/-- What holds of the first word of every value holds of the first word of the expansion, if no
name there vanishes. -/
theorem exists_head
    {P : Text → Prop}
    (hvalues : ∀ n v, values n = some v → v ≠ [] →
      ∀ w ∈ (words v).head?, P w ∧ values w ≠ some [])
    (h : Expands values ws us) :
  ∀ w ∈ ws.head?, P w → values w ≠ some [] → ∃ u ∈ us.head?, P u
  := by
  induction h with
  | nil => simp
  | @keep w ws us _ _ _ =>
    intro x hx hP _
    obtain rfl := Option.some.inj hx
    exact ⟨w, rfl, hP⟩
  | @replace w v ws vs us hv _ _ ihv _ =>
    intro x hx _ hne
    obtain rfl := Option.some.inj hx
    have hv' : v ≠ [] := by
      rintro rfl
      exact hne hv
    have hy := List.head?_eq_some_head (Text.words_ne_nil hv')
    obtain ⟨hP, hstays⟩ := hvalues w v hv hv' _ hy
    obtain ⟨u, hu, hPu⟩ := ihv _ hy hP hstays
    exact ⟨u, List.mem_head?_append_of_mem_head? hu, hPu⟩

/-- What holds of the last word of every value holds of the last word of the expansion, if no
name there vanishes. -/
theorem exists_last
    {P : Text → Prop}
    (hvalues : ∀ n v, values n = some v → v ≠ [] →
      ∀ w ∈ (words v).getLast?, P w ∧ values w ≠ some [])
    (h : Expands values ws us) :
  ∀ w ∈ ws.getLast?, P w → values w ≠ some [] → ∃ u ∈ us.getLast?, P u
  := by
  induction h with
  | nil => simp
  | @keep w ws us _ h ih =>
    intro x hx hP hne
    rcases List.eq_nil_or_concat ws with rfl | ⟨ws, y, rfl⟩
    · obtain rfl := Option.some.inj hx
      rw [h.eq_nil]
      exact ⟨w, rfl, hP⟩
    · rw [List.getLast?_cons_of_ne_nil (by simp)] at hx
      obtain ⟨u, hu, hPu⟩ := ih x hx hP hne
      refine ⟨u, ?_, hPu⟩
      rw [List.getLast?_cons_of_ne_nil (by rintro rfl; cases hu)]
      exact hu
  | @replace w v ws vs us hv _ h ihv ih =>
    intro x hx hP hne
    rcases List.eq_nil_or_concat ws with rfl | ⟨ws, y, rfl⟩
    · obtain rfl := Option.some.inj hx
      have hv' : v ≠ [] := by
        rintro rfl
        exact hne hv
      have hy := List.getLast?_eq_some_getLast (Text.words_ne_nil hv')
      obtain ⟨hP, hstays⟩ := hvalues w v hv hv' _ hy
      rw [h.eq_nil, List.append_nil]
      apply ihv _ hy hP hstays
    · rw [List.getLast?_cons_of_ne_nil (by simp)] at hx
      obtain ⟨u, hu, hPu⟩ := ih x hx hP hne
      exact ⟨u, List.mem_getLast?_append_of_mem_getLast? hu, hPu⟩

/-! ### One more name -/

/-- A name that has no value yet gets one that does not lead back to it: its places are taken by
the expansion of the value. -/
theorem add
    {k v : Text} {vs : List Text} (hk : values k = none) (hv : Expands values (words v) vs)
    (hkv : k ∉ vs) (h : Expands values ws us) :
  Expands (Function.update values k (some v)) ws
    (us.flatMap fun u => if u = k then vs else [u])
  := by
  have hother : ∀ {n x}, values n = some x → Function.update values k (some v) n = some x := by
    intro n x hn
    have hne : n ≠ k := by
      rintro rfl
      cases hk.symm.trans hn
    rw [Function.update_of_ne hne, hn]
  -- Where the name does not come up, nothing changes; so it is with its own value.
  have hsame : ∀ {ws us}, Expands values ws us → k ∉ us →
      Expands (Function.update values k (some v)) ws us := by
    intro ws us h
    induction h with
    | nil => intro _; apply Expands.nil
    | keep hw _ ih =>
      intro hmem
      rw [List.mem_cons, not_or] at hmem
      obtain ⟨hne, hmem⟩ := hmem
      apply Expands.keep _ (ih hmem)
      rw [Function.update_of_ne (Ne.symm hne), hw]
    | replace hw _ _ ihv ih =>
      intro hmem
      rw [List.mem_append, not_or] at hmem
      apply Expands.replace (hother hw) (ihv hmem.1) (ih hmem.2)
  induction h with
  | nil => apply Expands.nil
  | @keep w ws us hw _ ih =>
    rw [List.flatMap_cons]
    split
    next heq =>
      subst heq
      apply Expands.replace (Function.update_self w (some v) values) (hsame hv hkv) ih
    next hne =>
      apply Expands.keep _ ih
      rw [Function.update_of_ne hne, hw]
  | replace hw _ _ ihv ih =>
    rw [List.flatMap_append]
    apply Expands.replace (hother hw) ihv ih

/-! ### Neighbours -/

section Neighbours

variable (hnames : ∀ n v, values n = some v → IsIdentifier n)

include hnames

/-- A character outside of identifiers is no name, so nothing but itself starts its
expansion. -/
theorem eq_of_not_isIdentifier
    {w u : Text} (hw : ¬ IsIdentifier w) (h : ReflTransGen (StartsWith values) w u) :
  u = w
  := by
  rcases h.cases_head with rfl | ⟨_, ⟨v, hv, -⟩, -⟩
  · rfl
  · exact absurd (hnames w v hv) hw

/-- An identifier at the start of an expansion starts the expansion of the first word. -/
theorem exists_startsWith
    (h : Expands values ws us) (hws : ws.IsChain Separate) {u : Text} (hu : u ∈ us.head?)
    (hident : IsIdentifier u) :
  ∃ w ∈ ws.head?, ReflTransGen (StartsWith values) w u
  := by
  induction h with
  | nil => cases hu
  | @keep w ws us =>
    obtain rfl := Option.some.inj hu
    exact ⟨w, rfl, .refl⟩
  | @replace w v ws vs us hv _ _ ihv ih =>
    use w, rfl
    cases vs with
    | nil =>
      -- The name vanishes; behind it stands a character that stays.
      obtain ⟨x, hx, hxu⟩ := ih hws.tail hu
      have hident' := hws.rel_head? hx (hnames w v hv)
      rw [eq_of_not_isIdentifier hnames hident' hxu] at hident
      exact absurd hident hident'
    | cons x vs =>
      obtain ⟨y, hy, hyu⟩ := ihv (Text.isWords_words v).separate hu
      apply ReflTransGen.head ⟨v, hv, hy⟩ hyu

/-- Where no word stands in front of another that would lead to a neighbourhood, there is none in
the expansion. -/
theorem isChain
    {A B : Text → Prop} (hB : ∀ u, B u → IsIdentifier u) (h : Expands values ws us)
    (hsep : ws.IsChain Separate)
    (hws : ws.IsChain fun a b => A a → ∀ u, ReflTransGen (StartsWith values) b u → ¬ B u)
    (hvalues : ∀ n v, values n = some v →
      (words v).IsChain fun a b => A a → ∀ u, ReflTransGen (StartsWith values) b u → ¬ B u) :
  us.IsChain fun a b => A a → ¬ B b
  := by
  induction h with
  | nil => apply List.isChain_nil
  | @keep w ws us _ h ih =>
    apply List.isChain_cons.mpr ⟨_, ih hsep.tail hws.tail⟩
    intro u hu hA hBu
    obtain ⟨x, hx, hxu⟩ := h.exists_startsWith hnames hsep.tail hu (hB u hBu)
    apply hws.rel_head? hx hA u hxu hBu
  | @replace w v ws vs us hv _ h ihv ih =>
    apply List.isChain_append.mpr
    use ihv (Text.isWords_words v).separate (hvalues w v hv), ih hsep.tail hws.tail
    intro a _ u hu _ hBu
    obtain ⟨x, hx, hxu⟩ := h.exists_startsWith hnames hsep.tail hu (hB u hBu)
    have hident := hsep.rel_head? hx (hnames w v hv)
    rw [eq_of_not_isIdentifier hnames hident hxu] at hBu
    exact hident (hB x hBu)

/-- An expansion of words consists of words. -/
theorem isWords (h : Expands values ws us) (hws : IsWords ws) :
  IsWords us
  := by
  have hlead : ∀ {ws : List Text}, ws.IsChain Separate →
      ws.IsChain fun a b =>
        IsIdentifier a → ∀ u, ReflTransGen (StartsWith values) b u → ¬ IsIdentifier u := by
    intro ws hsep
    apply hsep.imp
    intro a b hab ha u hbu
    rw [eq_of_not_isIdentifier hnames (hab ha) hbu]
    exact hab ha
  constructor
  · apply h.forall_mem hws.token
    intro n v _ w hw
    apply Text.isToken_of_mem_words hw
  · apply h.isChain hnames (fun _ hu => hu) hws.separate (hlead hws.separate)
    intro n v _
    apply hlead (Text.isWords_words v).separate

end Neighbours

end Expands

end Define

end ShaderPair
