import ShaderPair.Proofs.DirectiveSearch
import ShaderPair.Proofs.Pieces

/-!
# Readings of patterns

A run of solid characters up to a closer may go on to a later closer if nothing but solid
characters is in between.  It stops at the first closer if what follows is shut for it
(`Text.Shut`, `Pattern.exists_upToLast_append`).  A pattern spares a text if no reading that starts
in front of it ends inside of it (`Pattern.Spares`): this goes through the composition of patterns,
words without the first character of the text have it, and so have runs for whose closer the text
is shut.

What is read first is found step by step (`Pattern.first?_bind`), where a word is told apart from
those with which it diverges (`Pattern.Diverge`).  If the last pattern of a composition applies at
no place of a text, then neither does the composition (`Pattern.Absent`).
-/

namespace ShaderPair

/-! ### Shut texts -/

namespace Text

variable {closer : Char} {t w : Text}

/-- A run of solid characters at the start of a text finds no closer: there is none in the run, and
none behind the blanks that follow it. -/
def Shut (closer : Char) (t : Text) : Prop :=
  closer ∉ t.takeWhile isSolid ∧ closer ∉ ((t.dropWhile isSolid).dropWhile isBlank).head?

instance (closer : Char) (t : Text) : Decidable (Shut closer t) :=
  inferInstanceAs (Decidable (_ ∧ _))

instance (t : Text) : Decidable (IsSolid t) := List.decidableBAll (fun c => ¬ isBlank c) t

theorem isSolid_iff {c : Char} :
  isSolid c = true ↔ ¬ isBlank c
  := by
  rw [isSolid, Bool.not_eq_true', Bool.not_eq_true]

theorem shut_cons_iff {c : Char} (hc : isSolid c) :
  Shut closer (c :: t) ↔ closer ≠ c ∧ Shut closer t
  := by
  rw [Shut, List.takeWhile_cons_of_pos hc, List.dropWhile_cons_of_pos hc, List.mem_cons, not_or,
    and_assoc]
  exact Iff.rfl

/-- Solid characters without a closer shut no text and open none. -/
theorem shut_append_iff (hw : IsSolid w) (hcloser : closer ∉ w) :
  Shut closer (w ++ t) ↔ Shut closer t
  := by
  induction w with
  | nil => exact Iff.rfl
  | cons c w ih =>
    obtain ⟨hc, hw⟩ := List.forall_mem_cons.mp hw
    rw [List.mem_cons, not_or] at hcloser
    rw [List.cons_append, shut_cons_iff (isSolid_iff.mpr hc), ih hw hcloser.2]
    exact and_iff_right hcloser.1

/-- Behind the blanks at the start of a text that does not end with one there is a character. -/
theorem exists_head?_dropWhile_append
    (hne : w ≠ []) (hlast : ∀ c ∈ w.getLast?, ¬ isBlank c) (t : Text) :
  ∃ c ∈ w, ((w ++ t).dropWhile isBlank).head? = some c
  := by
  have hdrop : w.dropWhile isBlank ≠ [] := by
    intro hnil
    have hx := List.getLast?_eq_some_getLast hne
    exact hlast _ hx (List.dropWhile_eq_nil_iff.mp hnil _ (List.mem_of_getLast? hx))
  obtain ⟨c, r, hr⟩ := List.exists_cons_of_ne_nil hdrop
  refine ⟨c, (List.dropWhile_suffix isBlank).subset (hr ▸ List.mem_cons_self), ?_⟩
  rw [List.dropWhile_append, if_neg (by rwa [List.isEmpty_iff]), hr]
  rfl

/-- A text with a blank in it is shut if it ends with a solid character and has no closer. -/
theorem shut_append_of_isBlank
    {b : Char} (hb : b ∈ w) (hblank : isBlank b) (hlast : ∀ c ∈ w.getLast?, ¬ isBlank c)
    (hcloser : closer ∉ w) (t : Text) :
  Shut closer (w ++ t)
  := by
  induction w with
  | nil => cases hb
  | cons c w ih =>
    rw [List.mem_cons, not_or] at hcloser
    by_cases hc : isBlank c
    · have hsolid : ¬ isSolid c := fun h => isSolid_iff.mp h hc
      rw [List.cons_append, Shut, List.takeWhile_cons_of_neg hsolid,
        List.dropWhile_cons_of_neg hsolid, List.dropWhile_cons_of_pos hc]
      cases w with
      | nil => exact absurd hc (hlast c rfl)
      | cons x w =>
        rw [List.getLast?_cons_cons] at hlast
        obtain ⟨y, hy, hhead⟩ := exists_head?_dropWhile_append (List.cons_ne_nil x w) hlast t
        rw [hhead, Option.mem_some_iff]
        exact ⟨List.not_mem_nil, fun heq => hcloser.2 (heq ▸ hy)⟩
    · have hbw : b ∈ w := by
        rcases List.mem_cons.mp hb with rfl | hb
        · exact absurd hblank hc
        · exact hb
      have hlast' : ∀ c ∈ w.getLast?, ¬ isBlank c := by
        intro x hx
        apply hlast x
        rw [List.getLast?_cons, hx]
        rfl
      rw [List.cons_append, shut_cons_iff (isSolid_iff.mpr hc)]
      exact ⟨hcloser.1, ih hbw hlast' hcloser.2⟩

/-- In front of a shut text any text without a closer is shut, if it ends with a solid
character. -/
theorem Shut.append (ht : Shut closer t) (hlast : ∀ c ∈ w.getLast?, ¬ isBlank c)
    (hcloser : closer ∉ w) :
  Shut closer (w ++ t)
  := by
  by_cases hw : IsSolid w
  · exact (shut_append_iff hw hcloser).mpr ht
  · simp only [IsSolid, not_forall, not_not] at hw
    obtain ⟨b, hb, hblank⟩ := hw
    exact shut_append_of_isBlank hb hblank hlast hcloser t

end Text

namespace Pattern

open Text (IsSolid Shut isBlank isSolid)

variable
  {α β : Type} {p : Char → Bool} {closer : Char} {before g t w : Text}
  {ways : List (Text × Text)}

/-! ### Beginnings -/

/-- A pattern with one reading is followed by the rest. -/
theorem bind_of_eq_singleton
    {p : Pattern α} {f : α → Pattern β} {a : α} {s : Text} (h : p s = [(a, t)]) :
  (p >>= f) s = f a t
  := by
  rw [bind_apply, h, List.flatMap_singleton]

theorem not_isBlank_of_head? {c : Char} (hw : c ∈ w.head?) (hc : ¬ isBlank c) (t : Text) :
  ∀ d ∈ (w ++ t).head?, ¬ isBlank d
  := by
  intro d hd
  obtain rfl := Option.some.inj ((List.mem_head?_append_of_mem_head? hw).symm.trans hd)
  exact hc

theorem not_isBlank_of_isIdentifier (hw : Text.IsIdentifier w) (t : Text) :
  ∀ c ∈ (w ++ t).head?, ¬ isBlank c
  := by
  intro c hc
  rw [List.head?_append_of_ne_nil _ hw.1] at hc
  exact Text.isSolid_of_isIdentifier hw c (List.mem_of_mem_head? hc)

theorem blanks_append (hg : ∀ c ∈ g, isBlank c) (ht : ∀ c ∈ t.head?, ¬ isBlank c) :
  blanks (g ++ t) = [((), t)]
  := by
  rw [blanks, (Define.takeWhile_dropWhile_append hg ht).2]

theorem blanks_of_head? (ht : ∀ c ∈ t.head?, ¬ isBlank c) :
  blanks t = [((), t)]
  := blanks_append (List.forall_mem_nil _) ht

theorem blanks1_append (hne : g ≠ []) (hg : ∀ c ∈ g, isBlank c) (ht : ∀ c ∈ t.head?, ¬ isBlank c) :
  blanks1 (g ++ t) = [((), t)]
  := by
  obtain ⟨b, g, rfl⟩ := List.exists_cons_of_ne_nil hne
  obtain ⟨hb, hg⟩ := List.forall_mem_cons.mp hg
  rw [List.cons_append, blanks1, if_pos hb, (Define.takeWhile_dropWhile_append hg ht).2]

/-- A text does not start with a word if they start with different characters. -/
theorem isPrefixOf_eq_false {c d : Char} (hw : c ∈ w.head?) (ht : d ∈ t.head?) (hne : c ≠ d) :
  w.isPrefixOf t = false
  := by
  obtain ⟨w, rfl⟩ := List.head?_eq_some_iff.mp hw
  obtain ⟨t, rfl⟩ := List.head?_eq_some_iff.mp ht
  rw [List.isPrefixOf_cons_cons, beq_eq_false_iff_ne.mpr hne, Bool.false_and]

theorem word_of_ne {c d : Char} (hw : c ∈ w.head?) (ht : d ∈ t.head?) (hne : c ≠ d) :
  word w t = []
  := by
  rw [word, isPrefixOf_eq_false hw ht hne]
  rfl

/-- Neither of two words starts with the other one. -/
def Diverge (u w : Text) : Prop := ¬ u <+: w ∧ ¬ w <+: u

instance (u w : Text) : Decidable (Diverge u w) := inferInstanceAs (Decidable (_ ∧ _))

theorem Diverge.symm {u w : Text} (h : Diverge u w) :
  Diverge w u
  := And.symm h

theorem Diverge.isPrefixOf_eq_false {u w : Text} (h : Diverge u w) (t : Text) :
  u.isPrefixOf (w ++ t) = false
  := by
  rw [Bool.eq_false_iff, ne_eq, List.isPrefixOf_iff_prefix]
  intro hstarts
  rcases List.prefix_or_prefix_of_prefix hstarts (List.prefix_append w t) with hle | hle
  · exact h.1 hle
  · exact h.2 hle

theorem word_of_diverge {u w : Text} (h : Diverge u w) (t : Text) :
  word u (w ++ t) = []
  := by
  rw [word, h.isPrefixOf_eq_false]
  rfl

theorem oneOf_cons_of_diverge
    {u w : Text} (h : Diverge u w) (a : α) (choices : List (Text × α)) (t : Text) :
  oneOf ((u, a) :: choices) (w ++ t) = oneOf choices (w ++ t)
  := by
  rw [oneOf]
  dsimp only
  rw [h.isPrefixOf_eq_false]
  rfl

theorem oneOf_of_diverge
    {w : Text} {choices : List (Text × α)} (h : ∀ choice ∈ choices, Diverge choice.1 w) (t : Text) :
  oneOf choices (w ++ t) = []
  := by
  induction choices with
  | nil => rfl
  | cons choice choices ih =>
    obtain ⟨hfirst, hrest⟩ := List.forall_mem_cons.mp h
    exact (oneOf_cons_of_diverge hfirst _ _ t).trans (ih hrest)

theorem oneOf_cons_append (w t : Text) (a : α) (choices : List (Text × α)) :
  oneOf ((w, a) :: choices) (w ++ t) = (a, t) :: oneOf choices (w ++ t)
  := by
  rw [oneOf]
  dsimp only
  rw [if_pos (by simp), List.drop_left]
  rfl

/-! ### Runs -/

/-- Characters of the class that are no closers are passed over. -/
theorem upToLastAfter_append (hw : ∀ c ∈ w, p c) (hcloser : closer ∉ w) :
  upToLastAfter p closer before ways (w ++ t)
    = upToLastAfter p closer (w.reverse ++ before) ways t
  := by
  induction w generalizing before with
  | nil => rfl
  | cons c w ih =>
    obtain ⟨hc, hw⟩ := List.forall_mem_cons.mp hw
    rw [List.mem_cons, not_or] at hcloser
    have hne : ¬ (decide (c = closer) && !before.isEmpty) := by
      simp [Ne.symm hcloser.1]
    rw [List.cons_append, upToLastAfter, if_pos hc, if_neg hne, ih hw hcloser.2,
      List.reverse_cons, List.append_assoc]
    rfl

/-- Readings come in front of those that are there already, and each leaves what follows a
closer. -/
theorem exists_upToLastAfter_eq
    (p : Char → Bool) (closer : Char) (before : Text) (ways : List (Text × Text)) (t : Text) :
  ∃ more, upToLastAfter p closer before ways t = more ++ ways ∧
    ∀ way ∈ more, closer :: way.2 <:+ t
  := by
  induction t generalizing before ways with
  | nil => exact ⟨[], rfl, List.forall_mem_nil _⟩
  | cons c r ih =>
    rw [upToLastAfter]
    split
    · obtain ⟨more, heq, hmore⟩ := ih (c :: before)
        (if c = closer && !before.isEmpty then (before, r) :: ways else ways)
      have hsuffix : ∀ way ∈ more, closer :: way.2 <:+ c :: r := fun way hway =>
        (hmore way hway).trans (List.suffix_cons c r)
      rw [heq]
      split
      next hc =>
        obtain ⟨rfl, -⟩ : c = closer ∧ _ := by simpa using hc
        refine ⟨more ++ [(before, r)], by simp, ?_⟩
        rw [List.forall_mem_append, List.forall_mem_singleton]
        exact ⟨hsuffix, List.suffix_rfl⟩
      next => exact ⟨more, rfl, hsuffix⟩
    · split
      · exact ⟨[], rfl, List.forall_mem_nil _⟩
      next d s hdrop =>
        split
        next hd =>
          obtain ⟨rfl, -⟩ : d = closer ∧ _ := by simpa using hd
          refine ⟨[(before, s)], rfl, ?_⟩
          rw [List.forall_mem_singleton, ← hdrop]
          exact List.dropWhile_suffix isBlank
        next => exact ⟨[], rfl, List.forall_mem_nil _⟩

/-- Every reading of a run leaves what follows a closer. -/
theorem suffix_of_mem_upToLast {way : Text × Text} (h : way ∈ upToLast p closer t) :
  closer :: way.2 <:+ t
  := by
  obtain ⟨more, heq, hmore⟩ := exists_upToLastAfter_eq p closer [] [] t
  rw [upToLast, heq, List.append_nil] at h
  exact hmore way h

/-- A closer that is not in the beginning of a text is in the rest of it. -/
theorem suffix_of_not_mem {s : Text} (hcloser : closer ∉ w) (h : closer :: s <:+ w ++ t) :
  closer :: s <:+ t
  := by
  induction w with
  | nil => exact h
  | cons c w ih =>
    rw [List.mem_cons, not_or] at hcloser
    rcases List.suffix_cons_iff.mp h with heq | h
    · exact absurd (List.cons.inj heq).1 hcloser.1
    · exact ih hcloser.2 h

theorem upToLastAfter_of_not_mem (h : closer ∉ t) :
  upToLastAfter p closer before ways t = ways
  := by
  obtain ⟨more, heq, hmore⟩ := exists_upToLastAfter_eq p closer before ways t
  cases more with
  | nil => exact heq
  | cons way more => exact absurd ((hmore way List.mem_cons_self).subset List.mem_cons_self) h

/-- In a shut text a run finds no closer. -/
theorem upToLastAfter_of_shut (ht : Shut closer t) :
  upToLastAfter isSolid closer before ways t = ways
  := by
  induction t generalizing before with
  | nil => rfl
  | cons c r ih =>
    rw [upToLastAfter]
    split
    next hc =>
      obtain ⟨hne, hr⟩ := (Text.shut_cons_iff hc).mp ht
      rw [if_neg (by simp [Ne.symm hne]), ih hr]
    next hc =>
      have hhead := ht.2
      rw [List.dropWhile_cons_of_neg hc] at hhead
      split
      · rfl
      next d s hdrop =>
        rw [hdrop, List.head?_cons, Option.mem_some_iff] at hhead
        rw [if_neg (by simp [hhead])]

/-- A run with a closer behind it, and perhaps blanks in between, is the last reading.  It is the
only one if there are blanks in between or if what follows is shut. -/
theorem exists_upToLast_append
    (hne : w ≠ []) (hw : IsSolid w) (hcloser : closer ∉ w) (hc : ¬ isBlank closer)
    (hg : ∀ c ∈ g, isBlank c) (t : Text) :
  ∃ more, upToLast isSolid closer (w ++ (g ++ closer :: t)) = more ++ [(w.reverse, t)] ∧
    (∀ way ∈ more, closer :: way.2 <:+ t) ∧ (g ≠ [] ∨ Shut closer t → more = [])
  := by
  have hsolid : ∀ c ∈ w, isSolid c := fun c hmem => Text.isSolid_iff.mpr (hw c hmem)
  have hempty : ¬ w.reverse.isEmpty := by
    simpa using hne
  rw [upToLast, upToLastAfter_append hsolid hcloser, List.append_nil]
  cases g with
  | nil =>
    rw [List.nil_append, upToLastAfter, if_pos (Text.isSolid_iff.mpr hc),
      if_pos (by simpa using hempty)]
    obtain ⟨more, heq, hmore⟩ :=
      exists_upToLastAfter_eq isSolid closer (closer :: w.reverse) [(w.reverse, t)] t
    refine ⟨more, heq, hmore, ?_⟩
    rintro (hg | ht)
    · exact absurd rfl hg
    · rw [upToLastAfter_of_shut ht] at heq
      exact List.append_left_eq_self.mp heq.symm
  | cons b g =>
    have hb : ¬ isSolid b := fun h => Text.isSolid_iff.mp h (hg b List.mem_cons_self)
    have hdrop : (b :: (g ++ closer :: t)).dropWhile isBlank = closer :: t :=
      (Define.takeWhile_dropWhile_append (g := b :: g) hg (by simpa using hc)).2
    refine ⟨[], ?_, List.forall_mem_nil _, fun _ => rfl⟩
    rw [List.cons_append, upToLastAfter, if_neg hb, hdrop]
    exact if_pos (by simpa using hempty)

/-! ### Spared texts -/

/-- However a pattern is read in front of a text, this text is left over. -/
def Spares (p : Pattern α) (t : Text) : Prop := ∀ s, ∀ way ∈ p (s ++ t), t <:+ way.2

theorem spares_pure (a : α) (t : Text) :
  Spares (pure a) t
  := by
  intro s way hway
  obtain rfl := List.mem_singleton.mp hway
  apply List.suffix_append

theorem Spares.bind
    {p : Pattern α} {f : α → Pattern β} (hp : Spares p t) (hf : ∀ a, Spares (f a) t) :
  Spares (p >>= f) t
  := by
  intro s way hway
  obtain ⟨⟨a, rest⟩, hfirst, hway⟩ := mem_bind_iff.mp hway
  obtain ⟨s', rfl⟩ := hp s _ hfirst
  exact hf a s' way hway

theorem Spares.optional {p : Pattern α} (hp : Spares p t) :
  Spares (optional p) t
  := by
  intro s way hway
  rcases List.mem_append.mp hway with hway | hway
  · obtain ⟨way', hway', rfl⟩ := List.mem_map.mp hway
    exact hp s way' hway'
  · obtain rfl := List.mem_singleton.mp hway
    apply List.suffix_append

theorem Spares.once {p : Pattern α} (hp : Spares p t) :
  Spares (once p) t
  := by
  intro s way hway
  exact hp s way (List.mem_of_mem_head? (Option.mem_toList.mp hway))

theorem Spares.onceThen
    {p : Pattern α} {f : α → Pattern β} (hp : Spares p t) (hf : ∀ a, Spares (f a) t) :
  Spares (onceThen p f) t
  := by
  rw [onceThen_eq_once_bind]
  exact (hp.bind hf).once

section

variable {d : Char} (hd : d ∈ t.head?)

include hd

/-- A word without the first character of a text ends in front of it. -/
theorem prefix_of_not_mem {s : Text} (hw : d ∉ w) (h : w <+: s ++ t) :
  w <+: s
  := by
  rcases Nat.le_total w.length s.length with hle | hle
  · exact List.prefix_of_prefix_length_le h (List.prefix_append s t) hle
  · obtain ⟨r, rfl⟩ := List.prefix_of_prefix_length_le (List.prefix_append s t) h hle
    rw [List.prefix_append_right_inj] at h
    cases r with
    | nil => rw [List.append_nil]
    | cons c r =>
      obtain ⟨t', rfl⟩ := List.head?_eq_some_iff.mp hd
      obtain ⟨rfl, -⟩ := List.cons_prefix_cons.mp h
      exact absurd (List.mem_append_right s List.mem_cons_self) hw

theorem suffix_drop_of_prefix {s : Text} (hw : d ∉ w) (h : w <+: s ++ t) :
  t <:+ (s ++ t).drop w.length
  := by
  obtain ⟨r, rfl⟩ := prefix_of_not_mem hd hw h
  rw [List.append_assoc, List.drop_left]
  apply List.suffix_append

theorem spares_word (hw : d ∉ w) :
  Spares (word w) t
  := by
  intro s way hway
  rw [word] at hway
  split at hway
  next h =>
    obtain rfl := List.mem_singleton.mp hway
    exact suffix_drop_of_prefix hd hw (List.isPrefixOf_iff_prefix.mp h)
  next => cases hway

theorem spares_oneOf {choices : List (Text × α)} (hchoices : ∀ choice ∈ choices, d ∉ choice.1) :
  Spares (oneOf choices) t
  := by
  induction choices with
  | nil =>
    intro s way hway
    cases hway
  | cons choice choices ih =>
    obtain ⟨hw, hchoices⟩ := List.forall_mem_cons.mp hchoices
    intro s way hway
    rcases List.mem_append.mp hway with hway | hway
    · split at hway
      next h =>
        obtain rfl := List.mem_singleton.mp hway
        exact suffix_drop_of_prefix hd hw (List.isPrefixOf_iff_prefix.mp h)
      next => cases hway
    · exact ih hchoices s way hway

theorem suffix_dropWhile (hsolid : ¬ isBlank d) (s : Text) :
  t <:+ (s ++ t).dropWhile isBlank
  := by
  obtain ⟨t', rfl⟩ := List.head?_eq_some_iff.mp hd
  rw [List.dropWhile_append]
  split
  · rw [List.dropWhile_cons_of_neg hsolid]
  · apply List.suffix_append

theorem spares_blanks (hsolid : ¬ isBlank d) :
  Spares blanks t
  := by
  intro s way hway
  obtain rfl := List.mem_singleton.mp hway
  exact suffix_dropWhile hd hsolid s

theorem spares_blanks1 (hsolid : ¬ isBlank d) :
  Spares blanks1 t
  := by
  intro s way hway
  obtain ⟨t', rfl⟩ := List.head?_eq_some_iff.mp hd
  cases s with
  | nil =>
    rw [List.nil_append, blanks1, if_neg hsolid] at hway
    cases hway
  | cons c s =>
    rw [List.cons_append, blanks1] at hway
    split at hway
    · obtain rfl := List.mem_singleton.mp hway
      exact suffix_dropWhile rfl hsolid s
    · cases hway

/-- A run does not get into a text that is shut for its closer. -/
theorem spares_upToLast (hsolid : ¬ isBlank d) (ht : Shut closer t) :
  Spares (upToLast isSolid closer) t
  := by
  have hafter : ∀ s before ways, (∀ way ∈ ways, t <:+ way.2) →
      ∀ way ∈ upToLastAfter isSolid closer before ways (s ++ t), t <:+ way.2 := by
    intro s
    induction s with
    | nil =>
      intro before ways hways
      rw [List.nil_append, upToLastAfter_of_shut ht]
      exact hways
    | cons c s ih =>
      intro before ways hways
      rw [List.cons_append, upToLastAfter]
      split
      · apply ih
        split
        · rw [List.forall_mem_cons]
          exact ⟨List.suffix_append s t, hways⟩
        · exact hways
      · split
        · exact hways
        next e r hdrop =>
          split
          next he =>
            rw [List.forall_mem_cons]
            refine ⟨?_, hways⟩
            obtain ⟨rfl, -⟩ : e = closer ∧ _ := by simpa using he
            have hrest : t <:+ e :: r := hdrop ▸ suffix_dropWhile hd hsolid (c :: s)
            rcases List.suffix_cons_iff.mp hrest with rfl | hrest
            · obtain rfl := Option.some.inj hd
              exact absurd rfl ((Text.shut_cons_iff (Text.isSolid_iff.mpr hsolid)).mp ht).1
            · exact hrest
          next => exact hways
  intro s
  exact hafter s [] [] (List.forall_mem_nil _)

end

/-! ### Patterns that are absent -/

/-- However a pattern is read, an end of the text is left over. -/
def Advances (p : Pattern α) : Prop := ∀ t, ∀ way ∈ p t, way.2 <:+ t

theorem advances_pure (a : α) :
  Advances (pure a)
  := by
  intro t way hway
  rw [List.mem_singleton.mp hway]

theorem advances_word (w : Text) :
  Advances (word w)
  := by
  intro t way hway
  rw [Define.eq_of_mem_word hway]
  apply List.suffix_append

theorem advances_oneOf (choices : List (Text × α)) :
  Advances (oneOf choices)
  := by
  induction choices with
  | nil =>
    rintro t way ⟨⟩
  | cons choice choices ih =>
    intro t way hway
    rcases List.mem_append.mp hway with hway | hway
    · split at hway
      · rw [List.mem_singleton.mp hway]
        apply List.drop_suffix
      · cases hway
    · exact ih t way hway

theorem advances_blanks :
  Advances blanks
  := by
  intro t way hway
  rw [List.mem_singleton.mp hway]
  apply List.dropWhile_suffix

theorem advances_blanks1 :
  Advances blanks1
  := by
  intro t way hway
  cases t with
  | nil => cases hway
  | cons c t =>
    rw [blanks1] at hway
    split at hway
    · rw [List.mem_singleton.mp hway]
      exact (List.dropWhile_suffix isBlank).trans (List.suffix_cons c t)
    · cases hway

theorem Advances.optional {p : Pattern α} (hp : Advances p) :
  Advances (optional p)
  := by
  intro t way hway
  rcases List.mem_append.mp hway with hway | hway
  · obtain ⟨way', hway', rfl⟩ := List.mem_map.mp hway
    exact hp t way' hway'
  · rw [List.mem_singleton.mp hway]

theorem Advances.orElse {p q : Pattern α} (hp : Advances p) (hq : Advances q) :
  Advances (p <|> q)
  := by
  intro t way hway
  rcases List.mem_append.mp hway with hway | hway
  · exact hp t way hway
  · exact hq t way hway

/-- A pattern applies at no place of a text. -/
def Absent (p : Pattern α) (t : Text) : Prop := ∀ s, s <:+ t → p s = []

theorem Absent.bind_left {p : Pattern α} (hp : Absent p t) (f : α → Pattern β) :
  Absent (p >>= f) t
  := by
  intro s hs
  rw [bind_apply, hp s hs]
  rfl

theorem Absent.bind_right
    {p : Pattern α} {f : α → Pattern β} (hf : ∀ a, Absent (f a) t) (hp : Advances p) :
  Absent (p >>= f) t
  := by
  intro s hs
  rw [bind_apply, List.flatMap_eq_nil_iff]
  exact fun way hway => hf way.1 way.2 ((hp s way hway).trans hs)

theorem find?_of_absent {p : Pattern α} (h : Absent p t) :
  find? p t = none
  := by
  induction t with
  | nil => rw [find?, first?, h [] List.suffix_rfl]; rfl
  | cons c t ih =>
    rw [find?, first?, h _ List.suffix_rfl]
    exact ih fun s hs => h s (hs.trans (List.suffix_cons c t))

/-! ### First readings -/

theorem find?_of_first? {p : Pattern α} {way : α × Text} (h : first? p t = some way) :
  find? p t = some way.1
  := by
  cases t <;> rw [find?, h]
  rfl

theorem first?_oneOf_append (w t : Text) (a : α) (choices : List (Text × α)) :
  first? (oneOf ((w, a) :: choices)) (w ++ t) = some (a, t)
  := congrArg List.head? (oneOf_cons_append w t a choices)

theorem first?_oneOf_of_diverge
    {u w : Text} (h : Diverge u w) (a : α) (choices : List (Text × α)) (t : Text) :
  first? (oneOf ((u, a) :: choices)) (w ++ t) = first? (oneOf choices) (w ++ t)
  := congrArg List.head? (oneOf_cons_of_diverge h a choices t)

theorem first?_bind
    {p : Pattern α} {f : α → Pattern β} {a : α} {way : β × Text} {s : Text}
    (hp : first? p s = some (a, t)) (hf : first? (f a) t = some way) :
  first? (p >>= f) s = some way
  := by
  obtain ⟨ways, hways⟩ := List.head?_eq_some_iff.mp hp
  rw [first?, bind_apply, hways, List.flatMap_cons]
  exact List.mem_head?_append_of_mem_head? hf

end Pattern

end ShaderPair
