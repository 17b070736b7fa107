import ShaderPair.Proofs.Patterns

/-!
# Patterns that end with a semicolon

A text without semicolons may follow.  Parts of a pattern may run into it, but then they leave no
semicolon to be read.  A pattern is `Pattern.Steady` if all of its other readings stay as they are
in front of such a text, and it is `Pattern.Settled` if every reading takes a semicolon and all of
them stay as they are.  A steady pattern followed by a settled one is settled
(`Pattern.Steady.bind_settled`), and what a settled pattern finds does not depend on what follows
(`Pattern.Settled.find?_append`).
-/

namespace ShaderPair

namespace Pattern

open Text (isBlank)

variable {α β : Type} {p q : Pattern α} {s t x : Text}

/-! ### Rests -/

theorem here_bind (f : Text → Pattern β) :
  (here >>= f) = fun t => f t t
  := by
  funext t
  apply bind_of_eq_singleton rfl

theorem Advances.bind {f : α → Pattern β} (hp : Advances p) (hf : ∀ a, Advances (f a)) :
  Advances (p >>= f)
  := by
  intro t way hway
  obtain ⟨first, hfirst, hway⟩ := mem_bind_iff.mp hway
  exact (hf _ _ way hway).trans (hp t first hfirst)

theorem advances_all (c : Char → Bool) :
  Advances (all c)
  := by
  intro t way hway
  rw [List.mem_singleton.mp hway]
  apply List.dropWhile_suffix

theorem advances_all1 (c : Char → Bool) :
  Advances (all1 c)
  := by
  intro t way hway
  rw [(Define.eq_of_mem_all1 hway).2.2.1]
  apply List.suffix_append

theorem advances_upToLast (c : Char → Bool) (closer : Char) :
  Advances (upToLast c closer)
  := by
  intro t way hway
  exact (List.suffix_cons closer way.2).trans (suffix_of_mem_upToLast hway)

/-! ### Steady patterns -/

/-- Whether a reading leaves a semicolon to be read. -/
def isLive (way : α × Text) : Bool := decide (';' ∈ way.2)

/-- A reading of a text in front of `x`. -/
def extend (x : Text) (way : α × Text) : α × Text := (way.1, way.2 ++ x)

theorem not_isLive_iff {way : α × Text} :
  ¬ isLive way = true ↔ ';' ∉ way.2
  := by
  rw [isLive, decide_eq_true_eq]

/-- The readings that leave a semicolon are the same in front of `x`. -/
structure Steady (x : Text) (p : Pattern α) : Prop where
  advances : Advances p
  filter_eq : ∀ s, (p (s ++ x)).filter isLive = ((p s).filter isLive).map (extend x)

/-- Readings that leave no semicolon do not lead to readings that do. -/
theorem flatMap_filter_isLive
    {f : α → Pattern β} (hf : ∀ a, Advances (f a)) (ways : List (α × Text)) :
  (ways.flatMap fun way => f way.1 way.2).filter isLive
    = (ways.filter isLive).flatMap fun way => (f way.1 way.2).filter isLive
  := by
  rw [List.filter_flatMap]
  induction ways with
  | nil => rfl
  | cons way ways ih =>
    rw [List.flatMap_cons, ih, List.filter_cons]
    split
    · rfl
    next hdead =>
      have hnil : (f way.1 way.2).filter isLive = [] := by
        apply List.filter_eq_nil_iff.mpr
        intro way' hway'
        rw [not_isLive_iff] at hdead ⊢
        exact fun hmem => hdead ((hf _ _ way' hway').subset hmem)
      rw [hnil, List.nil_append]

theorem Steady.bind {f : α → Pattern β} (hp : Steady x p) (hf : ∀ a, Steady x (f a)) :
  Steady x (p >>= f)
  := by
  have hadvances := fun a => (hf a).advances
  use hp.advances.bind hadvances
  intro s
  rw [bind_apply, bind_apply, flatMap_filter_isLive hadvances, flatMap_filter_isLive hadvances,
    hp.filter_eq, List.flatMap_map, List.map_flatMap]
  congr 1
  funext way
  exact (hf way.1).filter_eq way.2

theorem Steady.orElse (hp : Steady x p) (hq : Steady x q) :
  Steady x (p <|> q)
  := by
  use hp.advances.orElse hq.advances
  intro s
  rw [orElse_apply, orElse_apply, List.filter_append, List.filter_append, List.map_append,
    hp.filter_eq, hq.filter_eq]

/-- A run of characters reaches the end of a text, or it is the same in front of another one. -/
theorem dropWhile_cases (c : Char → Bool) (s x : Text) :
  s.dropWhile c = [] ∧ (s ++ x).dropWhile c <:+ x ∨
    ∃ e r, s.dropWhile c = e :: r ∧ (s ++ x).dropWhile c = e :: (r ++ x) ∧
      (s ++ x).takeWhile c = s.takeWhile c
  := by
  induction s with
  | nil =>
    left
    exact ⟨rfl, List.dropWhile_suffix c⟩
  | cons d s ih =>
    by_cases hd : c d = true
    · rw [List.cons_append, List.dropWhile_cons_of_pos hd, List.dropWhile_cons_of_pos hd,
        List.takeWhile_cons_of_pos hd, List.takeWhile_cons_of_pos hd]
      apply ih.imp_right
      rintro ⟨e, r, hdrop, hdrop', htake⟩
      exact ⟨e, r, hdrop, hdrop', congrArg (List.cons d) htake⟩
    · right
      rw [List.cons_append, List.dropWhile_cons_of_neg hd, List.dropWhile_cons_of_neg hd,
        List.takeWhile_cons_of_neg hd, List.takeWhile_cons_of_neg hd]
      exact ⟨d, s, rfl, rfl, rfl⟩

section

variable (hx : ';' ∉ x)

include hx

theorem isLive_extend (way : α × Text) :
  isLive (extend x way) = isLive way
  := by
  simp [isLive, extend, hx]

theorem filter_map_extend (ways : List (α × Text)) :
  (ways.map (extend x)).filter isLive = (ways.filter isLive).map (extend x)
  := by
  rw [List.filter_map]
  congr 1
  apply List.filter_congr
  intro way _
  apply isLive_extend hx

theorem not_isLive_of_suffix {way : α × Text} (h : way.2 <:+ x) :
  ¬ isLive way = true
  := not_isLive_iff.mpr fun hmem => hx (h.subset hmem)

/-- At each place, either nothing changes or no semicolon is left anyway. -/
theorem steady_of_cases
    (hp : Advances p)
    (h : ∀ s, p (s ++ x) = (p s).map (extend x) ∨
      (∀ way ∈ p (s ++ x), way.2 <:+ x) ∧ ∀ way ∈ p s, way.2 = []) :
  Steady x p
  := by
  use hp
  intro s
  obtain heq | ⟨hbehind, hnil⟩ := h s
  · rw [heq, filter_map_extend hx]
  · have hleft : (p (s ++ x)).filter isLive = [] :=
      List.filter_eq_nil_iff.mpr fun way hway => not_isLive_of_suffix hx (hbehind way hway)
    have hright : (p s).filter isLive = [] := by
      apply List.filter_eq_nil_iff.mpr
      intro way hway
      rw [not_isLive_iff, hnil way hway]
      apply List.not_mem_nil
    rw [hleft, hright]
    rfl

theorem steady_pure (a : α) :
  Steady x (pure a : Pattern α)
  := steady_of_cases hx (advances_pure a) fun _ => Or.inl rfl

theorem Steady.map {g : α → β} (hp : Steady x p) :
  Steady x (p >>= fun a => pure (g a))
  := hp.bind fun a => steady_pure hx (g a)

theorem Steady.optional (hp : Steady x p) :
  Steady x (optional p)
  := by
  have hoptional : Pattern.optional p = ((p >>= fun a => pure (some a)) <|> pure none) := by
    funext t
    rw [optional_apply, orElse_apply, bind_apply, List.map_eq_flatMap]
    rfl
  rw [hoptional]
  apply (Steady.map hx hp).orElse
  apply steady_pure hx

theorem steady_word (w : Text) :
  Steady x (word w)
  := by
  apply steady_of_cases hx (advances_word w)
  intro s
  by_cases h : w <+: s
  · left
    obtain ⟨r, rfl⟩ := h
    rw [List.append_assoc, Define.word_append, Define.word_append]
    rfl
  · right
    have hnone : word w s = [] := by
      rw [word, if_neg]
      rwa [List.isPrefixOf_iff_prefix]
    rw [hnone]
    refine ⟨?_, List.forall_mem_nil _⟩
    intro way hway
    rcases List.append_eq_append_iff.mp (Define.eq_of_mem_word hway) with ⟨r, -, hr⟩ | ⟨r, hr, -⟩
    · rw [hr]
      apply List.suffix_append
    · exact absurd ⟨r, hr.symm⟩ h

theorem steady_oneOf (choices : List (Text × α)) :
  Steady x (oneOf choices)
  := by
  induction choices with
  | nil =>
    use advances_oneOf []
    intro s
    rfl
  | cons choice choices ih =>
    have hcons : oneOf (choice :: choices)
        = ((word choice.1 >>= fun _ => pure choice.2) <|> oneOf choices) := by
      funext t
      change _ ++ _ = List.flatMap _ (word choice.1 t) ++ _
      rw [word]
      split <;> rfl
    rw [hcons]
    apply Steady.orElse _ ih
    apply Steady.map hx (steady_word hx choice.1)

/-! ### Runs of characters -/

theorem steady_all (c : Char → Bool) :
  Steady x (all c)
  := by
  apply steady_of_cases hx (advances_all c)
  intro s
  obtain ⟨hnil, hrest⟩ | ⟨e, r, hdrop, hdrop', htake⟩ := dropWhile_cases c s x
  · right
    simp only [all, List.forall_mem_singleton]
    exact ⟨hrest, hnil⟩
  · left
    rw [all, all, hdrop, hdrop', htake]
    rfl

theorem steady_all1 (c : Char → Bool) :
  Steady x (all1 c)
  := by
  apply steady_of_cases hx (advances_all1 c)
  intro s
  obtain ⟨hnil, hrest⟩ | ⟨e, r, hdrop, hdrop', htake⟩ := dropWhile_cases c s x
  · right
    have hmem : ∀ t, ∀ way ∈ all1 c t, way.2 = t.dropWhile c := by
      intro t way hway
      rw [all1] at hway
      split at hway
      · cases hway
      · rw [List.mem_singleton.mp hway]
    constructor
    · intro way hway
      rw [hmem _ way hway]
      exact hrest
    · intro way hway
      rw [hmem _ way hway]
      exact hnil
  · left
    rw [all1, all1, hdrop, hdrop', htake]
    split <;> rfl

omit hx in
/-- Blanks either reach the end of a text or are the same in front of another one. -/
theorem blanks_cases (s x : Text) :
  blanks (s ++ x) = (blanks s).map (extend x) ∨
    (∀ way ∈ blanks (s ++ x), way.2 <:+ x) ∧ ∀ way ∈ blanks s, way.2 = []
  := by
  obtain ⟨hnil, hrest⟩ | ⟨e, r, hdrop, hdrop', -⟩ := dropWhile_cases isBlank s x
  · right
    simp only [blanks, List.forall_mem_singleton]
    exact ⟨hrest, hnil⟩
  · left
    rw [blanks, blanks, hdrop, hdrop']
    rfl

theorem steady_blanks :
  Steady x blanks
  := steady_of_cases hx advances_blanks fun s => blanks_cases s x

theorem steady_blanks1 :
  Steady x blanks1
  := by
  apply steady_of_cases hx advances_blanks1
  intro s
  cases s with
  | nil =>
    right
    exact ⟨fun way hway => advances_blanks1 x way hway, List.forall_mem_nil _⟩
  | cons d s =>
    rw [List.cons_append, blanks1, blanks1]
    split
    · apply blanks_cases
    · left
      rfl

theorem filter_cons_extend
    {ways ways' : List (α × Text)}
    (hways : ways.filter isLive = (ways'.filter isLive).map (extend x)) (way : α × Text) :
  (extend x way :: ways).filter isLive = ((way :: ways').filter isLive).map (extend x)
  := by
  rw [List.filter_cons, List.filter_cons, isLive_extend hx]
  split
  · rw [List.map_cons, hways]
  · exact hways

/-- Runs up to a closer that leave a semicolon are the same in front of `x`. -/
theorem filter_upToLastAfter
    (c : Char → Bool) (closer : Char) (s before : Text) {ways ways' : List (Text × Text)}
    (hways : ways.filter isLive = (ways'.filter isLive).map (extend x)) :
  (upToLastAfter c closer before ways (s ++ x)).filter isLive
    = ((upToLastAfter c closer before ways' s).filter isLive).map (extend x)
  := by
  induction s generalizing before ways ways' with
  | nil =>
    obtain ⟨more, heq, hmore⟩ := exists_upToLastAfter_eq c closer before ways x
    have hnil : more.filter isLive = [] := by
      apply List.filter_eq_nil_iff.mpr
      intro way hway
      apply not_isLive_of_suffix hx
      exact (List.suffix_cons closer way.2).trans (hmore way hway)
    rw [List.nil_append, heq, List.filter_append, hnil]
    exact hways
  | cons d s ih =>
    rw [List.cons_append, upToLastAfter, upToLastAfter]
    split
    · apply ih
      split
      · exact filter_cons_extend hx hways (before, s)
      · exact hways
    · obtain ⟨hnil, hrest⟩ | ⟨e, r, hdrop, hdrop', -⟩ := dropWhile_cases isBlank (d :: s) x
      · rw [List.cons_append] at hrest
        rw [hnil]
        split
        · exact hways
        next e r hdrop =>
          split
          · have hdead : ¬ isLive (before, r) = true := by
              apply not_isLive_of_suffix hx
              exact (List.suffix_cons e r).trans (hdrop ▸ hrest)
            rw [List.filter_cons_of_neg hdead]
            exact hways
          · exact hways
      · rw [List.cons_append] at hdrop'
        rw [hdrop, hdrop']
        dsimp only
        split
        · exact filter_cons_extend hx hways (before, r)
        · exact hways

theorem steady_upToLast (c : Char → Bool) (closer : Char) :
  Steady x (upToLast c closer)
  := by
  use advances_upToLast c closer
  intro s
  apply filter_upToLastAfter hx
  rfl

end

/-! ### Settled patterns -/

/-- Every reading takes a semicolon and is the same in front of `x`. -/
structure Settled (x : Text) (p : Pattern α) : Prop where
  eq_nil : ∀ {t}, ';' ∉ t → p t = []
  apply_append : ∀ s, p (s ++ x) = (p s).map (extend x)

/-- Behind a steady pattern, settled patterns for a text and for the same text in front of `x` give
settled readings. -/
theorem Steady.flatMap_append
    (hp : Steady x p) {f f' : α → Pattern β} (hf : ∀ a t, ';' ∉ t → f a t = [])
    (hf' : ∀ a t, ';' ∉ t → f' a t = [])
    (happend : ∀ a t, f' a (t ++ x) = (f a t).map (extend x)) (s : Text) :
  ((p (s ++ x)).flatMap fun way => f' way.1 way.2)
    = ((p s).flatMap fun way => f way.1 way.2).map (extend x)
  := by
  have hfilter : ∀ (g : α → Pattern β), (∀ a t, ';' ∉ t → g a t = []) → ∀ ways : List (α × Text),
      (ways.flatMap fun way => g way.1 way.2)
        = (ways.filter isLive).flatMap fun way => g way.1 way.2 := by
    intro g hg ways
    induction ways with
    | nil => rfl
    | cons way ways ih =>
      rw [List.flatMap_cons, ih, List.filter_cons]
      split
      · rfl
      next hdead => rw [hg _ _ (not_isLive_iff.mp hdead), List.nil_append]
  rw [hfilter f' hf', hfilter f hf, hp.filter_eq, List.flatMap_map, List.map_flatMap]
  congr 1
  funext way
  exact happend way.1 way.2

/-- A settled pattern behind a steady one is settled. -/
theorem Steady.bind_settled
    {f : α → Pattern β} (hp : Steady x p) (hf : ∀ a, Settled x (f a)) :
  Settled x (p >>= f)
  := by
  constructor
  · intro t ht
    rw [bind_apply, List.flatMap_eq_nil_iff]
    intro way hway
    apply (hf way.1).eq_nil
    exact fun hmem => ht ((hp.advances t way hway).subset hmem)
  · exact hp.flatMap_append (fun a _ => (hf a).eq_nil) (fun a _ => (hf a).eq_nil)
      fun a => (hf a).apply_append

theorem Settled.map {g : α → β} (hp : Settled x p) :
  Settled x (p >>= fun a => pure (g a))
  := by
  constructor
  · intro t ht
    rw [bind_apply, hp.eq_nil ht]
    rfl
  · intro s
    rw [bind_apply, bind_apply, hp.apply_append, List.flatMap_map, List.map_flatMap]
    rfl

theorem Settled.orElse (hp : Settled x p) (hq : Settled x q) :
  Settled x (p <|> q)
  := by
  constructor
  · intro t ht
    rw [orElse_apply, hp.eq_nil ht, hq.eq_nil ht]
    rfl
  · intro s
    rw [orElse_apply, orElse_apply, hp.apply_append, hq.apply_append, List.map_append]

theorem first?_of_eq_map {p q : Pattern α} (h : p t = (q s).map (extend x)) :
  first? p t = (first? q s).map (extend x)
  := by
  rw [first?, h, List.head?_map]
  rfl

theorem once_of_eq_map {p q : Pattern α} (h : p t = (q s).map (extend x)) :
  once p t = (once q s).map (extend x)
  := by
  rw [once, once, first?_of_eq_map h, Option.toList_map]

theorem once_of_eq_nil (h : p t = []) :
  once p t = []
  := by
  rw [once, first?, h]
  rfl

theorem Settled.once (hp : Settled x p) :
  Settled x (once p)
  := ⟨fun ht => once_of_eq_nil (hp.eq_nil ht), fun s => once_of_eq_map (hp.apply_append s)⟩

theorem Settled.find?_eq_none (hp : Settled x p) (ht : ';' ∉ t) :
  find? p t = none
  := find?_of_absent fun _ hs => hp.eq_nil fun hmem => ht (hs.subset hmem)

/-- What a settled pattern finds does not depend on whether `x` follows. -/
theorem Settled.find?_append (hp : Settled x p) (hx : ';' ∉ x) (s : Text) :
  find? p (s ++ x) = find? p s
  := by
  induction s with
  | nil => rw [List.nil_append, hp.find?_eq_none hx, hp.find?_eq_none List.not_mem_nil]
  | cons c s ih =>
    have hfirst := first?_of_eq_map (hp.apply_append (c :: s))
    rw [List.cons_append] at hfirst ⊢
    rw [find?, find?, hfirst, ih]
    cases Pattern.first? p (c :: s) <;> rfl

section

variable (hx : ';' ∉ x)

include hx

theorem settled_word :
  Settled x (word [';'])
  := by
  have hnone : ∀ {t : Text}, ¬ [';'] <+: t → word [';'] t = [] := by
    intro t ht
    rw [word, if_neg]
    rwa [List.isPrefixOf_iff_prefix]
  constructor
  · intro t ht
    apply hnone
    exact fun h => ht (h.subset List.mem_cons_self)
  · intro s
    by_cases hs : [';'] <+: s
    · obtain ⟨r, rfl⟩ := hs
      rw [List.append_assoc, Define.word_append, Define.word_append]
      rfl
    · have hs' : ¬ [';'] <+: s ++ x := by
        intro h
        cases s with
        | nil => exact hx (h.subset List.mem_cons_self)
        | cons c s => exact hs ((List.cons_prefix_cons.mp h).1 ▸ ⟨s, rfl⟩)
      rw [hnone hs, hnone hs']
      rfl

/-- No run up to a semicolon gets into `x`. -/
theorem upToLastAfter_semicolon (c : Char → Bool) (s before : Text) (ways : List (Text × Text)) :
  upToLastAfter c ';' before (ways.map (extend x)) (s ++ x)
    = (upToLastAfter c ';' before ways s).map (extend x)
  := by
  induction s generalizing before ways with
  | nil => apply upToLastAfter_of_not_mem hx
  | cons d s ih =>
    rw [List.cons_append, upToLastAfter, upToLastAfter]
    split
    · split
      · apply ih (d :: before) ((before, s) :: ways)
      · apply ih
    · obtain ⟨hnil, hrest⟩ | ⟨e, r, hdrop, hdrop', -⟩ := dropWhile_cases isBlank (d :: s) x
      · rw [List.cons_append] at hrest
        rw [hnil]
        split
        · rfl
        next e r hdrop =>
          have he : e ≠ ';' := by
            rintro rfl
            exact hx ((hdrop ▸ hrest).subset List.mem_cons_self)
          rw [if_neg (by simp [he])]
      · rw [List.cons_append] at hdrop'
        rw [hdrop, hdrop']
        dsimp only
        split <;> rfl

theorem settled_upToLast (c : Char → Bool) :
  Settled x (upToLast c ';')
  := by
  constructor
  · intro t ht
    apply upToLastAfter_of_not_mem ht
  · intro s
    exact upToLastAfter_semicolon hx c s [] []

end

end Pattern

end ShaderPair
