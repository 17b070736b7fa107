import ShaderPair.Proofs.BufferSites
import ShaderPair.Proofs.HostTypes
import ShaderPair.Proofs.Patterns
import ShaderPair.Proofs.Visibility

/-!
# Declarations of buffers in the code

A `BufferDeclaration` is the declaration of a buffer as it may be written, with blanks between its
parts.  Its type may be any text without a colon or a semicolon; what is read as a type, however,
is a run of solid characters.  So a declaration with a solid type is found in whatever code
(`BufferDeclaration.exists_found`), and one with a blank in its type is not
(`BufferDeclaration.exists_plain`).  No declaration further up reaches into it, since there is a
blank in front of its name (`BufferDeclaration.suffix_of_mem_pattern`).  What is found is annotated,
registered and described, unless there is no slot left (`declarations_bound`).
-/

namespace ShaderPair

open Pattern
open Text (IsIdentifier IsSolid Shut isBlank isSolid)

/-! ### Texts of declarations -/

namespace BufferForm

/-- What follows the colon in a declaration. -/
def structPattern (space : AddressSpace) (access : Option Access) (name : Text) :
    Pattern BufferForm := do
  blanks
  let struct ← once (upToLast isSolid ';')
  return ⟨space, access, name.reverse, struct.reverse⟩

/-- What follows the address space and the access in a declaration. -/
def variablePattern (space : AddressSpace) (access : Option Access) : Pattern BufferForm := do
  blanks1
  onceThen (upToLast isSolid ':') (structPattern space access)

theorem first?_structPattern
    (space : AddressSpace) (access : Option Access) (name t : Text) :
  first? (structPattern space access name) t
    = (upToLast isSolid ';' (t.dropWhile isBlank)).head?.map fun way =>
      (⟨space, access, name.reverse, way.1.reverse⟩, way.2)
  := by
  rw [first?, structPattern, bind_of_eq_singleton rfl, bind_apply, once, first?]
  cases (upToLast isSolid ';' (t.dropWhile isBlank)).head? <;> rfl

end BufferForm

/-- The word for an address space. -/
def AddressSpace.word : AddressSpace → Text
  | uniform => "uniform"
  | storage => "storage"

/-- The word for an access. -/
def Access.word : Access → Text
  | read => "read"
  | readWrite => "read_write"

/-- The declaration of a buffer as it is written. -/
structure BufferDeclaration where
  /-- The address space. -/
  space : AddressSpace
  /-- The access, if it is stated. -/
  access : Option Access
  /-- The name of the variable. -/
  name : Text
  /-- The type. -/
  type : Text
  /-- The blanks in front of the address space. -/
  beforeSpace : Blanks
  /-- The blanks behind the address space. -/
  afterSpace : Blanks
  /-- The blanks in front of the access. -/
  beforeAccess : Blanks
  /-- The blanks behind the access. -/
  afterAccess : Blanks
  /-- The blanks in front of the name. -/
  beforeName : Blanks
  /-- The blanks behind the name. -/
  afterName : Blanks
  /-- The blanks in front of the type. -/
  beforeType : Blanks
  /-- The blanks behind the type. -/
  afterType : Blanks
  /-- The name is apart from what stands in front of it. -/
  beforeName_ne : beforeName.text ≠ []
  isIdentifier : IsIdentifier name
  type_ne : type ≠ []
  bare : Text.Bare type
  /-- The type ends where the declaration does. -/
  inside : ':' ∉ type ∧ ';' ∉ type

namespace BufferDeclaration

variable (d : BufferDeclaration)

/-- The access with a comma in front of it. -/
def accessText : Text :=
  match d.access with
  | none => []
  | some access => "," ++ (d.beforeAccess.text ++ (access.word ++ d.afterAccess.text))

/-- What stands in front of the name and of the blanks there. -/
def head : Text :=
  "var<" ++ (d.beforeSpace.text ++ (d.space.word ++ (d.afterSpace.text ++ (d.accessText ++ ">"))))

/-- What stands behind the colon. -/
def typeText : Text := d.beforeType.text ++ (d.type ++ (d.afterType.text ++ [';']))

/-- The text of a declaration. -/
def text : Text :=
  d.head ++ (d.beforeName.text ++ (d.name ++ (d.afterName.text ++ ':' :: d.typeText)))

/-- What is read from a declaration. -/
def form : BufferForm := ⟨d.space, d.access, d.name, d.type⟩

/-! ### In front of the name -/

theorem oneOf_spaces (space : AddressSpace) (t : Text) :
  oneOf BufferForm.spaces (space.word ++ t) = [(space, t)]
  := by
  have hdiverge : Diverge ("uniform" : Text) ("storage" : Text) := by decide +kernel
  cases space with
  | uniform =>
    exact (oneOf_cons_append _ _ _ _).trans
      (congrArg _ (oneOf_cons_of_diverge hdiverge.symm _ _ _))
  | storage => exact (oneOf_cons_of_diverge hdiverge _ _ _).trans (oneOf_cons_append _ _ _ _)

/-- An access is found in the last reading of its word; another one finds a part of the word. -/
theorem exists_oneOf_accesses
    (access : Access) {c : Char} {t : Text} (hc : c ∈ t.head?) (hne : c ≠ '_') :
  ∃ more, oneOf BufferForm.accesses (access.word ++ t) = more ++ [(access, t)] ∧
    ∀ way ∈ more, '_' ∈ way.2.head?
  := by
  have hword : ("read_write" : Text) = ("read" : Text) ++ ("_write" : Text) := by
    rw [Text.ofString_ofList, Text.ofString_ofList, Text.ofString_ofList]
    rfl
  have hhead : '_' ∈ ("_write" : Text).head? := by
    rw [Text.ofString_ofList]
    rfl
  cases access with
  | read =>
    have hlonger : oneOf [(("read_write" : Text), Access.readWrite)] (("read" : Text) ++ t)
        = [] := by
      have hstarts : ("read_write" : Text).isPrefixOf (("read" : Text) ++ t) = false := by
        rw [Bool.eq_false_iff, ne_eq, List.isPrefixOf_iff_prefix, hword,
          List.prefix_append_right_inj, ← List.isPrefixOf_iff_prefix,
          isPrefixOf_eq_false hhead hc (Ne.symm hne)]
        decide
      rw [oneOf]
      dsimp only
      rw [hstarts]
      rfl
    refine ⟨[], ?_, List.forall_mem_nil _⟩
    exact (oneOf_cons_append _ _ _ _).trans (congrArg _ hlonger)
  | readWrite =>
    refine ⟨[(.read, ("_write" : Text) ++ t)], ?_, ?_⟩
    · have hassoc : Access.readWrite.word ++ t = ("read" : Text) ++ (("_write" : Text) ++ t) := by
        rw [Access.word, hword, List.append_assoc]
      have hown : oneOf [(("read_write" : Text), Access.readWrite)] (Access.readWrite.word ++ t)
          = [(.readWrite, t)] := oneOf_cons_append _ _ _ _
      rw [hassoc] at hown ⊢
      exact (oneOf_cons_append _ _ _ _).trans (congrArg _ hown)
    · rw [List.forall_mem_singleton]
      exact List.mem_head?_append_of_mem_head? hhead

theorem head?_word_access (access : Access) :
  'r' ∈ access.word.head?
  := by
  cases access <;> rw [Access.word, Text.ofString_ofList] <;> rfl

theorem exists_accessPattern
    (access : Access) (before after : Blanks) {t : Text} (ht : '>' ∈ t.head?) :
  ∃ more, BufferForm.accessPattern ("," ++ (before.text ++ (access.word ++ (after.text ++ t))))
      = more ++ [(access, t)] ∧
    ∀ way ∈ more, '_' ∈ way.2.head?
  := by
  have hsolid := not_isBlank_of_head? (head?_word_access access) (by decide) (after.text ++ t)
  have hstop : ∀ c ∈ t.head?, ¬ isBlank c := by
    intro c hc
    obtain rfl := Option.some.inj (ht.symm.trans hc)
    decide
  obtain ⟨c, hc, hne⟩ : ∃ c ∈ (after.text ++ t).head?, c ≠ '_' := by
    obtain ⟨gap, hgap⟩ := after
    cases gap with
    | nil => exact ⟨'>', ht, by decide⟩
    | cons b gap =>
      refine ⟨b, rfl, ?_⟩
      rintro rfl
      exact absurd (hgap '_' List.mem_cons_self) (by decide)
  obtain ⟨more, heq, hmore⟩ := exists_oneOf_accesses access hc hne
  refine ⟨more.flatMap fun way => [(way.1, way.2.dropWhile isBlank)], ?_, ?_⟩
  · rw [BufferForm.accessPattern, bind_of_eq_singleton (Define.word_append _ _),
      bind_of_eq_singleton (blanks_append before.isBlank hsolid), bind_apply, heq,
      List.flatMap_append, List.flatMap_singleton,
      bind_of_eq_singleton (blanks_append after.isBlank hstop)]
    rfl
  · intro way' hway'
    obtain ⟨way, hway, hmem⟩ := List.mem_flatMap.mp hway'
    obtain rfl := List.mem_singleton.mp hmem
    obtain ⟨r, hr⟩ := List.head?_eq_some_iff.mp (hmore way hway)
    dsimp only
    rw [hr, List.dropWhile_cons_of_neg (by decide)]
    rfl

/-- The access is read, and the bracket that closes it. -/
theorem bind_access {β : Type} (k : Option Access → Pattern β) (t : Text) :
  (do
    let access ← optional BufferForm.accessPattern
    word ">"
    k access) (d.accessText ++ (">" ++ t)) = k d.access t
  := by
  have hcomma : ',' ∈ ("," : Text).head? := by
    rw [Text.ofString_ofList]
    rfl
  have hclose : '>' ∈ (">" : Text).head? := by
    rw [Text.ofString_ofList]
    rfl
  have hbracket : '>' ∈ ((">" : Text) ++ t).head? := List.mem_head?_append_of_mem_head? hclose
  rw [accessText]
  cases d.access with
  | none =>
    have hnone : BufferForm.accessPattern ((">" : Text) ++ t) = [] := by
      rw [BufferForm.accessPattern, bind_apply, word_of_ne hcomma hbracket (by decide)]
      rfl
    rw [List.nil_append, bind_of_eq_singleton (a := none) (by rw [optional_apply, hnone]; rfl)]
    exact bind_of_eq_singleton (Define.word_append _ _)
  | some access =>
    have hassoc : ("," : Text) ++ (d.beforeAccess.text ++ (access.word ++ d.afterAccess.text))
          ++ (">" ++ t)
        = "," ++ (d.beforeAccess.text ++ (access.word ++ (d.afterAccess.text ++ (">" ++ t)))) := by
      simp only [List.append_assoc]
    obtain ⟨more, heq, hmore⟩ :=
      exists_accessPattern access d.beforeAccess d.afterAccess hbracket
    have hnone : word ">" ("," ++ (d.beforeAccess.text
        ++ (access.word ++ (d.afterAccess.text ++ (">" ++ t))))) = [] :=
      word_of_ne hclose (List.mem_head?_append_of_mem_head? hcomma) (by decide)
    have hmore' : more.flatMap (fun way => (word ">" >>= fun _ => k (some way.1)) way.2) = [] := by
      rw [List.flatMap_eq_nil_iff]
      intro way hway
      rw [bind_apply, word_of_ne hclose (hmore way hway) (by decide)]
      rfl
    rw [hassoc, bind_apply, optional_apply, heq, List.map_append, List.append_assoc,
      List.flatMap_append, List.flatMap_map, hmore', List.nil_append, List.map_singleton,
      List.singleton_append, List.flatMap_cons, List.flatMap_singleton,
      bind_of_eq_singleton (Define.word_append _ _), bind_apply, hnone]
    exact List.append_nil _

theorem not_isBlank_accessText (t : Text) :
  ∀ c ∈ (d.accessText ++ (">" ++ t)).head?, ¬ isBlank c
  := by
  rw [accessText]
  cases d.access with
  | none =>
    apply not_isBlank_of_head? (c := '>') _ (by decide) t
    rw [Text.ofString_ofList]
    rfl
  | some access =>
    rw [List.append_assoc]
    apply not_isBlank_of_head? (c := ',') _ (by decide)
    rw [Text.ofString_ofList]
    rfl

theorem pattern_head (t : Text) :
  BufferForm.pattern (d.head ++ t) = BufferForm.variablePattern d.space d.access t
  := by
  have hspace : ∀ (space : AddressSpace) t, ∀ c ∈ (space.word ++ t).head?, ¬ isBlank c := by
    rintro (_ | _)
    · exact not_isBlank_of_head? (c := 'u') (by decide +kernel) (by decide)
    · exact not_isBlank_of_head? (c := 's') (by decide +kernel) (by decide)
  have hassoc : d.head ++ t = "var<" ++ (d.beforeSpace.text ++ (d.space.word
      ++ (d.afterSpace.text ++ (d.accessText ++ (">" ++ t))))) := by
    simp only [head, List.append_assoc]
  rw [hassoc, BufferForm.pattern, bind_of_eq_singleton (Define.word_append _ _),
    bind_of_eq_singleton (blanks_append d.beforeSpace.isBlank (hspace _ _)),
    bind_of_eq_singleton (oneOf_spaces _ _),
    bind_of_eq_singleton (blanks_append d.afterSpace.isBlank (d.not_isBlank_accessText t))]
  apply bind_access

/-! ### In front of a declaration -/

theorem not_isBlank_closer {closer : Char} (hcloser : closer ∈ [':', ';']) :
  ¬ isBlank closer
  := by
  rcases List.mem_pair.mp hcloser with rfl | rfl <;> decide

theorem not_mem_blanks {closer : Char} (hcloser : closer ∈ [':', ';']) (gap : Blanks) :
  closer ∉ gap.text
  := fun h => not_isBlank_closer hcloser (gap.isBlank closer h)

theorem not_mem_head {closer : Char} (hcloser : closer ∈ [':', ';']) :
  closer ∉ d.head
  := by
  have hfixed : ∀ l ∈ ["var<", "uniform", "storage", ",", "read", "read_write", ">"],
      ':' ∉ Text.ofString l ∧ ';' ∉ Text.ofString l := by
    decide +kernel
  have hwords : ∀ l ∈ ["var<", "uniform", "storage", ",", "read", "read_write", ">"],
      closer ∉ Text.ofString l := by
    intro l hl
    rcases List.mem_pair.mp hcloser with rfl | rfl
    · exact (hfixed l hl).1
    · exact (hfixed l hl).2
  simp only [List.forall_mem_cons, List.not_mem_nil, false_implies, implies_true, and_true]
    at hwords
  have hspace : closer ∉ d.space.word := by
    cases d.space <;> simp [AddressSpace.word, hwords]
  have haccess : closer ∉ d.accessText := by
    rw [accessText]
    cases d.access with
    | none => exact List.not_mem_nil
    | some access => cases access <;> simp [Access.word, hwords, not_mem_blanks hcloser]
  simp [head, hwords, hspace, haccess, not_mem_blanks hcloser]

theorem not_mem_name {closer : Char} (hcloser : closer ∈ [':', ';']) :
  closer ∉ d.name
  := by
  have hword : ¬ Text.isWord closer := by
    rcases List.mem_pair.mp hcloser with rfl | rfl <;> decide
  exact fun h => hword (d.isIdentifier.2 closer h)

/-- A declaration is shut: the blanks in front of its name are followed by the name. -/
theorem shut_text {closer : Char} (hcloser : closer ∈ [':', ';']) (post : Text) :
  Shut closer (d.text ++ post)
  := by
  obtain ⟨b, hb⟩ := List.exists_mem_of_ne_nil _ d.beforeName_ne
  have hassoc : d.text ++ post = (d.head ++ (d.beforeName.text ++ d.name))
      ++ (d.afterName.text ++ ':' :: d.typeText ++ post) := by
    simp only [text, List.append_assoc]
  rw [hassoc]
  refine Text.shut_append_of_isBlank (b := b) ?_ (d.beforeName.isBlank b hb) ?_ ?_ _
  · exact List.mem_append_right _ (List.mem_append_left _ hb)
  · intro c hc
    rw [← List.append_assoc, List.getLast?_append_of_ne_nil _ d.isIdentifier.1] at hc
    exact Text.isSolid_of_isIdentifier d.isIdentifier c (List.mem_of_getLast? hc)
  · simp only [List.mem_append, not_or]
    exact ⟨d.not_mem_head hcloser, not_mem_blanks hcloser _, d.not_mem_name hcloser⟩

theorem head?_text (post : Text) :
  (d.text ++ post).head? = some 'v'
  := by
  have hvar : ("var<" : Text).head? = some 'v' := by
    rw [Text.ofString_ofList]
    rfl
  rw [text, head, List.append_assoc, List.append_assoc]
  exact List.mem_head?_append_of_mem_head? hvar

/-- No declaration that starts further up gets into another one. -/
theorem suffix_of_mem_pattern
    (post : Text) {s : Text} (hs : s ≠ []) {way : BufferForm × Text}
    (hway : way ∈ BufferForm.pattern (s ++ (d.text ++ post))) :
  d.text ++ post <:+ way.2
  := by
  have hd : 'v' ∈ (d.text ++ post).head? := d.head?_text post
  have hsolid : ¬ isBlank 'v' := by decide
  have hrun : ∀ closer ∈ [':', ';'], Spares (upToLast isSolid closer) (d.text ++ post) :=
    fun closer hcloser => spares_upToLast hd hsolid (d.shut_text hcloser post)
  have hblanks : Spares blanks (d.text ++ post) := spares_blanks hd hsolid
  have haccess : Spares BufferForm.accessPattern (d.text ++ post) :=
    .bind (spares_word hd (by decide +kernel)) fun _ => .bind hblanks fun _ =>
      .bind (spares_oneOf hd (by decide +kernel)) fun _ => .bind hblanks fun _ => spares_pure _ _
  -- the `v` of `var` is the only one in front of the name
  have hvar : ("var<" : Text) = 'v' :: ("ar<" : Text) := by decide +kernel
  obtain ⟨c, s, rfl⟩ := List.exists_cons_of_ne_nil hs
  obtain ⟨first, hfirst, hway⟩ := mem_bind_iff.mp hway
  rw [word] at hfirst
  split at hfirst
  case isFalse => cases hfirst
  case isTrue hstarts =>
    obtain rfl := List.mem_singleton.mp hfirst
    rw [List.isPrefixOf_iff_prefix, hvar, List.cons_append, List.cons_prefix_cons] at hstarts
    rw [hvar, List.cons_append, List.length_cons, List.drop_succ_cons] at hway
    obtain ⟨r, hr⟩ := suffix_drop_of_prefix hd (by decide +kernel) hstarts.2
    dsimp only at hway
    rw [← hr] at hway
    refine Spares.bind hblanks (fun _ => ?_) r way hway
    refine .bind (spares_oneOf hd (by decide +kernel)) fun _ => .bind hblanks fun _ =>
      .bind haccess.optional fun _ => .bind (spares_word hd (by decide +kernel)) fun _ =>
      .bind (spares_blanks1 hd hsolid) fun _ => .onceThen (hrun _ (by decide)) fun _ =>
      .bind hblanks fun _ => .bind (hrun _ (by decide)).once fun _ => spares_pure _ _

/-! ### The reading of a declaration -/

/-- What follows the declaration does not prolong the runs in it. -/
def Ends (post : Text) : Prop :=
  (d.afterName.text ≠ [] ∨ d.beforeType.text ≠ [] ∨ d.afterType.text ≠ [] ∨ Shut ':' post) ∧
    (d.afterType.text ≠ [] ∨ Shut ';' post)

instance (post : Text) : Decidable (d.Ends post) := inferInstanceAs (Decidable (_ ∧ _))

theorem not_mem_typeText :
  ':' ∉ d.typeText
  := by
  simp [typeText, not_mem_blanks, d.inside]

theorem not_isBlank_typeText :
  ∀ c ∈ d.typeText.getLast?, ¬ isBlank c
  := by
  rintro c hc
  have hlast : d.typeText.getLast? = some ';' := by
    simp [typeText, List.getLast?_append]
  obtain rfl := Option.some.inj (hlast.symm.trans hc)
  decide

/-- A name does not go on behind its colon if there are blanks around the type or in it, or if what
follows the declaration is shut. -/
theorem shut_typeText
    {post : Text}
    (h : d.beforeType.text ≠ [] ∨ d.afterType.text ≠ [] ∨ ¬ IsSolid d.type ∨ Shut ':' post) :
  Shut ':' (d.typeText ++ post)
  := by
  have hblank : (∃ b ∈ d.typeText, isBlank b) → Shut ':' (d.typeText ++ post) := by
    rintro ⟨b, hb, hblank⟩
    exact Text.shut_append_of_isBlank hb hblank d.not_isBlank_typeText d.not_mem_typeText post
  rcases h with h | h | h | h
  · obtain ⟨b, hb⟩ := List.exists_mem_of_ne_nil _ h
    exact hblank ⟨b, by simp [typeText, hb], d.beforeType.isBlank b hb⟩
  · obtain ⟨b, hb⟩ := List.exists_mem_of_ne_nil _ h
    exact hblank ⟨b, by simp [typeText, hb], d.afterType.isBlank b hb⟩
  · simp only [IsSolid, not_forall, not_not] at h
    obtain ⟨b, hb, hisBlank⟩ := h
    exact hblank ⟨b, by simp [typeText, hb], hisBlank⟩
  · exact h.append d.not_isBlank_typeText d.not_mem_typeText

/-- The blanks in front of the type are passed over. -/
theorem dropWhile_typeText (post : Text) :
  (d.typeText ++ post).dropWhile isBlank = d.type ++ (d.afterType.text ++ ';' :: post)
  := by
  have hassoc : d.typeText ++ post
      = d.beforeType.text ++ (d.type ++ (d.afterType.text ++ ';' :: post)) := by
    simp only [typeText, List.append_assoc, List.singleton_append]
  have htype : ∀ c ∈ (d.type ++ (d.afterType.text ++ ';' :: post)).head?, ¬ isBlank c := by
    intro c hc
    rw [List.head?_append_of_ne_nil _ d.type_ne] at hc
    exact d.bare.1 c hc
  rw [hassoc, (Define.takeWhile_dropWhile_append d.beforeType.isBlank htype).2]

/-- The names that may be read have the declared one as the last. -/
theorem exists_names (post : Text) :
  ∃ more, first? BufferForm.pattern (d.text ++ post)
      = (more ++ [(d.name.reverse, d.typeText ++ post)]).findSome? (fun way =>
        first? (BufferForm.structPattern d.space d.access way.1) way.2) ∧
    (∀ way ∈ more, ':' :: way.2 <:+ post) ∧
    (d.afterName.text ≠ [] ∨ Shut ':' (d.typeText ++ post) → more = [])
  := by
  have hassoc : d.text ++ post = d.head ++ (d.beforeName.text
      ++ (d.name ++ (d.afterName.text ++ ':' :: (d.typeText ++ post)))) := by
    simp only [text, List.append_assoc, List.cons_append]
  have hsolid : IsSolid d.name := Text.isSolid_of_isIdentifier d.isIdentifier
  have hname := not_isBlank_of_isIdentifier d.isIdentifier
  have hcloser : ':' ∈ [':', ';'] := List.mem_cons_self
  obtain ⟨more, heq, hmore, hnil⟩ := exists_upToLast_append d.isIdentifier.1 hsolid
    (d.not_mem_name hcloser) (not_isBlank_closer hcloser) d.afterName.isBlank (d.typeText ++ post)
  refine ⟨more, ?_, fun way hway => ?_, hnil⟩
  · rw [hassoc, first?, pattern_head, BufferForm.variablePattern,
      bind_of_eq_singleton (blanks1_append d.beforeName_ne d.beforeName.isBlank (hname _)),
      onceThen, heq, Option.head?_toList]
  · exact suffix_of_not_mem d.not_mem_typeText (hmore way hway)

/-- The types that may be read behind the colon have the declared one as the last. -/
theorem exists_types (hsolid : IsSolid d.type) (post : Text) :
  ∃ more, upToLast isSolid ';' ((d.typeText ++ post).dropWhile isBlank)
      = more ++ [(d.type.reverse, post)] ∧
    (∀ way ∈ more, ';' :: way.2 <:+ post) ∧
    (d.afterType.text ≠ [] ∨ Shut ';' post → more = [])
  := by
  rw [dropWhile_typeText]
  exact exists_upToLast_append d.type_ne hsolid d.inside.2 (by decide) d.afterType.isBlank post

/-- From a type with a blank in it nothing can be read. -/
theorem types_of_not_isSolid (hsolid : ¬ IsSolid d.type) (post : Text) :
  upToLast isSolid ';' ((d.typeText ++ post).dropWhile isBlank) = []
  := by
  simp only [IsSolid, not_forall, not_not] at hsolid
  obtain ⟨b, hb, hblank⟩ := hsolid
  rw [dropWhile_typeText]
  exact upToLastAfter_of_shut
    (Text.shut_append_of_isBlank hb hblank d.bare.2 d.inside.2 _)

/-- A declaration with a solid type is read, perhaps with a part of what follows it. -/
theorem exists_first?_text (hsolid : IsSolid d.type) (post : Text) :
  ∃ form more rest, post = more ++ rest ∧
    first? BufferForm.pattern (d.text ++ post) = some (form, rest) ∧
    form.space = d.space ∧ form.access = d.access ∧
    (d.Ends post → form = d.form ∧ more = [])
  := by
  obtain ⟨names, heq, hnames, hnamesNil⟩ := d.exists_names post
  obtain ⟨types, htypes, htypesSuffix, htypesNil⟩ := d.exists_types hsolid post
  obtain ⟨way, hway⟩ := Option.isSome_iff_exists.mp
    (show (types ++ [(d.type.reverse, post)]).head?.isSome by simp)
  have hlast := BufferForm.first?_structPattern d.space d.access d.name.reverse (d.typeText ++ post)
  rw [htypes, hway, Option.map_some] at hlast
  rw [List.findSome?_append, List.findSome?_singleton, hlast] at heq
  cases hfirst : names.findSome? fun way =>
      first? (BufferForm.structPattern d.space d.access way.1) way.2 with
  | some found =>
    -- the name goes on to a colon behind the declaration
    rw [hfirst, Option.some_or] at heq
    obtain ⟨way', hway', hfound⟩ := List.exists_of_findSome?_eq_some hfirst
    rw [BufferForm.first?_structPattern, Option.map_eq_some_iff] at hfound
    obtain ⟨last, hlast, rfl⟩ := hfound
    have hstruct : last.2 <:+ way'.2 :=
      (List.suffix_cons _ _).trans <|
        (suffix_of_mem_upToLast (List.mem_of_mem_head? hlast)).trans (List.dropWhile_suffix isBlank)
    have hrest : last.2 <:+ post :=
      hstruct.trans ((List.suffix_cons _ _).trans (hnames way' hway'))
    obtain ⟨more, hmore⟩ := hrest
    refine ⟨_, more, last.2, hmore.symm, heq, rfl, rfl, fun hends => ?_⟩
    have hnil : names = [] := by
      apply hnamesNil
      rcases hends.1 with h | h | h | h
      · exact .inl h
      · exact .inr (d.shut_typeText (.inl h))
      · exact .inr (d.shut_typeText (.inr (.inl h)))
      · exact .inr (d.shut_typeText (.inr (.inr (.inr h))))
    rw [hnil] at hway'
    cases hway'
  | none =>
    rw [hfirst, Option.none_or] at heq
    have hrest : way.2 <:+ post := by
      rcases List.mem_append.mp (List.mem_of_mem_head? hway) with h | h
      · exact (List.suffix_cons _ _).trans (htypesSuffix way h)
      · rw [List.mem_singleton.mp h]
    obtain ⟨more, hmore⟩ := hrest
    refine ⟨_, more, way.2, hmore.symm, heq, rfl, rfl, fun hends => ?_⟩
    rw [htypesNil hends.2] at hway
    obtain rfl := Option.some.inj hway
    simp only [form, List.reverse_reverse, true_and]
    exact List.append_left_eq_self.mp hmore

/-- A declaration whose type has a blank in it is not recognised. -/
theorem first?_text_of_not_isSolid (hsolid : ¬ IsSolid d.type) (post : Text) :
  first? BufferForm.pattern (d.text ++ post) = none
  := by
  obtain ⟨names, heq, -, hnil⟩ := d.exists_names post
  rw [heq, hnil (.inr (d.shut_typeText (.inr (.inr (.inl hsolid))))), List.nil_append,
    List.findSome?_singleton, BufferForm.first?_structPattern, d.types_of_not_isSolid hsolid]
  rfl

/-- A declaration with a solid type is one of the stretches found in its code. -/
theorem exists_found (hsolid : IsSolid d.type) (pre post : Text) :
  ∃ above form more below,
    Piece.ofText (fun _ => BufferForm.pattern) (pre ++ (d.text ++ post))
      = above ++ .found (d.text ++ more) form :: below ∧
    above.flatMap Piece.source = pre ∧ form.space = d.space ∧ form.access = d.access ∧
    (d.Ends post → form = d.form ∧ more = [])
  := by
  obtain ⟨above, heq, hsource⟩ :=
    Piece.exists_ofText_append (fun _ hs _ => d.suffix_of_mem_pattern post hs) pre
  obtain ⟨form, more, rest, rfl, hfirst, hspace, haccess, hends⟩ := d.exists_first?_text hsolid post
  rw [← List.append_assoc] at hfirst
  have hne : d.text ++ more ≠ [] := by
    intro h
    simpa [h] using d.head?_text more
  refine ⟨above, form, more, Piece.ofText (fun _ => BufferForm.pattern) rest, ?_, hsource, hspace,
    haccess, hends⟩
  rw [heq, ← List.append_assoc, Piece.ofText_append hne hfirst]

/-- A declaration with a blank in its type is none of the stretches found in its code. -/
theorem exists_plain (hsolid : ¬ IsSolid d.type) (pre post : Text) :
  ∃ above below,
    Piece.ofText (fun _ => BufferForm.pattern) (pre ++ (d.text ++ post))
      = above ++ .plain 'v' :: below ∧
    above.flatMap Piece.source = pre
  := by
  obtain ⟨above, heq, hsource⟩ :=
    Piece.exists_ofText_append (fun _ hs _ => d.suffix_of_mem_pattern post hs) pre
  have hfirst := d.first?_text_of_not_isSolid hsolid post
  obtain ⟨t, ht⟩ := List.head?_eq_some_iff.mp (d.head?_text post)
  rw [ht] at hfirst heq
  refine ⟨above, Piece.ofText (fun _ => BufferForm.pattern) t, ?_, hsource⟩
  rw [ht, heq, Piece.ofText_cons hfirst]

end BufferDeclaration

/-! ### Declarations that are bound -/

namespace Compile

variable {stage : Stage} {c : Context} {e : Fault}

theorem eq_noSlot_of_declareBuffer
    {form : BufferForm} (h : (declareBuffer stage form c).result = .error e) :
  e = noSlot c.limits
  := by
  rw [declareBuffer, context_bind] at h
  obtain ⟨h, -⟩ | ⟨b, -, h, -⟩ := error_of_bind h
  · cases hfind : c.resources.buffers.find? (form.key c.resources.buffers) with
    | some b =>
      rw [registeredBuffer_of_find?_eq_some hfind] at h
      cases h
    | none =>
      obtain hslot | ⟨slot, -, hslot⟩ := bufferSlot_cases hfind
      · obtain ⟨free, ⟨slot, -, heq⟩ | ⟨-, -, heq⟩⟩ := takeSlot_cases c
        · rw [registeredBuffer_of_bufferSlot hfind (hslot.trans heq)] at h
          cases h
        · have hresult : (bufferSlot form c).result = .error (noSlot c.limits) := by
            rw [hslot.trans heq]
          rw [registeredBuffer, context_bind, hfind] at h
          dsimp only at h
          rw [bind_of_error hresult] at h
          exact (Except.error.inj h).symm
      · rw [registeredBuffer_of_bufferSlot hfind hslot] at h
        cases h
  · rw [describe, update_bind] at h
    cases h

/-- Where buffers are not annotated, there is no slot left. -/
theorem eq_noSlot_of_annotateBuffers
    {code : Text} (h : (annotateBuffers stage code c).result = .error e) :
  e = noSlot c.limits
  := by
  have heach : ∀ (forms : List BufferForm) c,
      (each (declareBuffer stage) forms c).result = .error e → e = noSlot c.limits := by
    intro forms
    induction forms with
    | nil =>
      intro c h
      cases h
    | cons form forms ih =>
      intro c h
      obtain ⟨h, -⟩ | ⟨slot, -, h, -⟩ := error_of_bind h
      · exact eq_noSlot_of_declareBuffer h
      · obtain ⟨es, heffect, -⟩ := does_declareBuffer stage form c
        rw [← heffect.limits_eq]
        exact ih _ (error_of_bind_pure h).1
  rw [annotateBuffers, annotateEach_eq] at h
  exact heach _ c (error_of_bind_pure h).1

/-- The slots of the annotations are seen from the stage. -/
theorem sees_of_annotateBuffers
    {code text : Text} (h : (annotateBuffers stage code c).result = .ok text)
    (ha : c.resources.layout.Aligned) {x : BufferSite}
    (hkey : x.key ∈ BufferForm.keysFrom c.resources.buffers.keys (bufferForms code))
    (hx : x.Registered (annotateBuffers stage code c).context.resources.buffers) :
  (annotateBuffers stage code c).context.resources.layout.Sees x.slot stage
  := by
  obtain ⟨es, heffect, hok⟩ := does_annotateBuffers stage code c
  obtain rfl := hok text h
  rw [heffect.steps.sees_iff ha, Resources.Event.sightsFrom_ofBuffers]
  refine .inr ⟨_, List.mem_map_of_mem hkey, rfl, ?_⟩
  obtain ⟨b, hb, hslot⟩ := hx.find?
  refine ⟨[b.slot], ?_, List.mem_singleton.mpr hslot.symm⟩
  rw [Resources.slots?, hb, Option.map_some]

end Compile

/-- The slot of a declaration is registered for its buffer and described as such, and it is seen
from the stage. -/
structure BufferSite.Bound (r : Resources) (stage : Stage) (x : BufferSite) : Prop where
  registered : x.Registered r.buffers
  described : ∃ i e, r.layout.find? x.slot = some (i, e) ∧ i.name = x.key ∧
    e.resource.registry = .buffers ∧ e.visibility.has stage

/-- What is registered and seen is described. -/
theorem BufferSite.Registered.bound
    {r : Resources} {stage : Stage} {x : BufferSite} (hx : x.Registered r.buffers)
    (hsees : r.layout.Sees x.slot stage) (hd : r.layout.Describes r.holdings) :
  x.Bound r stage
  := by
  obtain ⟨b, hb, hslot⟩ := hx.find?
  obtain ⟨i, e, hfind, hhas⟩ := Layout.sees_iff.mp hsees
  have hholding := (hd.holding?_eq_some_iff x.slot (b.holding x.key)).mpr
    ⟨r.holding_mem_of_find? hb, hslot⟩
  rw [Layout.holding?, hfind, Option.map_some] at hholding
  have heq := Option.some.inj hholding
  exact ⟨hx, i, e, hfind, congrArg Holding.name heq, congrArg Holding.registry heq, hhas⟩

/-- Each stretch found in some code is annotated with the slot to which it is bound, if the code is
annotated at all. -/
theorem Compile.bound_of_annotateBuffers
    {stage : Stage} {code out source : Text} {above below : List (Piece BufferForm)}
    {form : BufferForm} {c : Context}
    (h : (annotateBuffers stage code c).result = .ok out)
    (hpieces : Piece.ofText (fun _ => BufferForm.pattern) code
      = above ++ .found source form :: below)
    (ha : c.resources.layout.Aligned) :
  let r := (annotateBuffers stage code c).context.resources
  r.layout.Describes r.holdings →
    ∃ key slot slots behind, BufferSite.Bound r stage ⟨form, key, slot⟩ ∧
      out = Piece.annotate above slots ++ (slot.annotation ++ (source ++ behind))
  := by
  intro r hd
  obtain ⟨xs, hforms, rfl, hkeys, -, hxs⟩ := registered_of_annotateBuffers h
  have hvalues : bufferForms code = Piece.values above ++ form :: Piece.values below := by
    rw [bufferForms, hpieces, Piece.values, List.flatMap_append, List.flatMap_cons]
    rfl
  rw [hvalues] at hforms
  obtain ⟨xs₁, xs', rfl, hforms₁, hforms'⟩ := List.map_eq_append_iff.mp hforms
  obtain ⟨x, xs₂, rfl, rfl, -⟩ := List.map_eq_cons_iff.mp hforms'
  have hmem : x ∈ xs₁ ++ x :: xs₂ := List.mem_append_right _ List.mem_cons_self
  have hkey : x.key ∈ BufferForm.keysFrom c.resources.buffers.keys (bufferForms code) :=
    hkeys ▸ List.mem_map_of_mem hmem
  have hlength : (xs₁.map BufferSite.slot).length = (Piece.values above).length := by
    rw [← hforms₁, List.length_map, List.length_map]
  have hsees := sees_of_annotateBuffers h ha hkey (hxs x hmem)
  refine ⟨x.key, x.slot, xs₁.map BufferSite.slot, Piece.annotate below (xs₂.map BufferSite.slot),
    (hxs x hmem).bound hsees hd, ?_⟩
  rw [annotateForms, hpieces, List.map_append, List.map_cons, Piece.annotate_append hlength,
    Piece.annotate, List.append_assoc]

/-- Whatever happened in a session and whatever code is around it, the declaration of a buffer is
bound if its type has no blanks in it: it is annotated directly in front of its first character,
with a slot that is registered for the buffer and described in the layout, unless there is no slot
left; the fault is then about the slots, or about limits that are too long to be written.  What is
registered is the declaration as it is written, unless what follows it prolongs it.  A declaration
with a blank in its type is passed over. -/
theorem declarations_bound
    (mode : Mode) (limits : Limits) (components : OrderedMap Text Int) (ops : List Operation)
    (d : BufferDeclaration) (pre post : Text) (stage : Stage) :
  let code := pre ++ (d.text ++ post)
  let pieces := Piece.ofText (fun _ => BufferForm.pattern) code
  let o := Compile.annotateBuffers stage code ((Context.fresh mode limits components).after ops)
  (IsSolid d.type → ∃ above form more below,
    pieces = above ++ .found (d.text ++ more) form :: below ∧ above.flatMap Piece.source = pre ∧
    form.space = d.space ∧ form.access = d.access ∧ (d.Ends post → form = d.form ∧ more = []) ∧
    (o.result = .error
        (if Text.isWritable limits.groups ∧ Text.isWritable limits.bindingsPerGroup then
          .slotsExhausted limits.groups limits.bindingsPerGroup
        else .unwritableNumber) ∨
      ∃ key slot slots behind, BufferSite.Bound o.context.resources stage ⟨form, key, slot⟩ ∧
        o.result = .ok (Piece.annotate above slots ++ (slot.annotation ++ (d.text ++ behind))))) ∧
  (¬ IsSolid d.type → ∃ above below,
    pieces = above ++ .plain 'v' :: below ∧ above.flatMap Piece.source = pre)
  := by
  intro code pieces o
  constructor
  · intro hsolid
    obtain ⟨above, form, more, below, hpieces, hsource, hspace, haccess, hends⟩ :=
      d.exists_found hsolid pre post
    refine ⟨above, form, more, below, hpieces, hsource, hspace, haccess, hends, ?_⟩
    cases hresult : o.result with
    | error e =>
      left
      have hlimits : ((Context.fresh mode limits components).after ops).limits = limits :=
        (Session.steps _ ops).2.1
      rw [Compile.eq_noSlot_of_annotateBuffers hresult, hlimits, Compile.noSlot_eq]
    | ok out =>
      right
      have hafter : (Context.fresh mode limits components).after
          (ops ++ [.annotateBuffers stage code]) = o.context := by
        rw [Session.after_append]
        apply Compile.context_ignore
      have hd : o.context.resources.layout.Describes o.context.resources.holdings :=
        hafter ▸ Session.describes _
      obtain ⟨key, slot, slots, behind, hbound, rfl⟩ :=
        Compile.bound_of_annotateBuffers hresult hpieces (Session.describes ops).aligned hd
      refine ⟨key, slot, slots, more ++ behind, hbound, ?_⟩
      rw [List.append_assoc]
  · intro hsolid
    exact d.exists_plain hsolid pre post

/-- The declaration `var<storage, read_write> data : TYPE;`. -/
def BufferDeclaration.data
    (type : Text) (ne : type ≠ []) (trimmed : Text.trim type = type)
    (inside : ':' ∉ type ∧ ';' ∉ type) : BufferDeclaration where
  space := .storage
  access := some .readWrite
  name := "data"
  type := type
  beforeSpace := .none
  afterSpace := .none
  beforeAccess := .space
  afterAccess := .none
  beforeName := .space
  afterName := .space
  beforeType := .space
  afterType := .none
  beforeName_ne := Blanks.space_ne
  isIdentifier := by decide +kernel
  type_ne := ne
  bare := trimmed ▸ Text.bare_trim type
  inside := inside

/-- A declaration with a solid type. -/
def BufferDeclaration.numbers : BufferDeclaration :=
  .data "array<u32>" (by decide +kernel) (by decide +kernel) (by decide +kernel)

/-- A declaration with a blank in its type. -/
def BufferDeclaration.vectors : BufferDeclaration :=
  .data "array<vec4<f32>, 4>" (by decide +kernel) (by decide +kernel) (by decide +kernel)

open BufferDeclaration (numbers vectors) in
/-- Between two other declarations one of a solid type is bound to its own name, and one with a
blank in its type is not found. -/
theorem declarations_bound_data :
  let pre : Text := "var<uniform> a : A;\n"
  let post : Text := "\nvar<uniform> b : B;\n"
  let o := Compile.annotateBuffers .vertex (pre ++ (numbers.text ++ post)) (.fresh .pure {} ∅)
  (IsSolid numbers.type ∧ numbers.Ends post ∧
    BufferSite.Bound o.context.resources .vertex ⟨numbers.form, "data", ⟨0, 1⟩⟩) ∧
  (¬ IsSolid vectors.type ∧
    ∃ above below, Piece.ofText (fun _ => BufferForm.pattern) (pre ++ (vectors.text ++ post))
      = above ++ .plain 'v' :: below ∧ above.flatMap Piece.source = pre)
  := by
  intro pre post o
  have hsolid : IsSolid numbers.type := by decide +kernel
  have hblank : ¬ IsSolid vectors.type := by decide +kernel
  have hends : numbers.Ends post := by decide +kernel
  refine ⟨⟨hsolid, hends, ?_⟩, hblank, ?_⟩
  · obtain ⟨_, _, _, _, -, -, -, -, hform, hresult⟩ :=
      (declarations_bound .pure {} ∅ [] numbers pre post .vertex).1 hsolid
    obtain ⟨rfl, -⟩ := hform hends
    rcases hresult with herror | ⟨key, slot, _, _, hbound, -⟩
    · have hok : o.result.isOk = true := by decide +kernel
      rw [show o.result = _ from herror] at hok
      cases hok
    · have hengine : ¬ numbers.form.isEngineBuffer := by decide +kernel
      obtain rfl : key = "data" := by
        rcases hbound.registered.key_cases with hkey | ⟨h, -⟩
        · exact hkey
        · exact absurd h hengine
      obtain ⟨b, hb, rfl⟩ := hbound.registered.find?
      have hslot : o.context.resources.buffers.find? "data" = some ⟨⟨0, 1⟩, .storage⟩ := by
        decide +kernel
      obtain rfl := Option.some.inj (hb.symm.trans hslot)
      exact hbound
  · exact (declarations_bound .pure {} ∅ [] vectors pre post .vertex).2 hblank

open BufferDeclaration (vectors) in
/-- A declaration with a blank in its type is left without a slot, although there are slots, and no
buffer is registered or described. -/
theorem not_bound_vectors :
  let c := Context.fresh .engine {} ∅
  let o := Compile.annotateBuffers .vertex vectors.text c
  vectors.text = "var<storage, read_write> data : array<vec4<f32>, 4>;" ∧
    o.result = .ok vectors.text ∧ o.context.resources.buffers.keys = [] ∧
    o.context.resources.layout = {}
  := by
  decide +kernel

end ShaderPair
