import ShaderPair.Proofs.Effect
import Mathlib.Data.Int.ConditionallyCompleteOrder
import Mathlib.Order.CompletePartialOrder
import Mathlib.Order.ConditionallyCompleteLattice.Basic
import Mathlib.Order.Interval.Set.Disjoint

/-!
# The locations of attributes and varyings

The variables of a kind stand behind each other: a declaration takes the locations behind those
of the declaration in front of it, as many as its whole type has for each of its elements, and
none beyond the limit (`LocationSite.Stacked`).  What it needs is as many as the type of one
element has for each element.  These differ for arrays of matrices, whose type is taken for that
of a scalar, and so the locations that variables need are apart exactly if each variable in front
of another one needs no more than it takes.
-/

namespace ShaderPair

open Compile (nextLocation locationLimit)

/-! ### Declarations -/

/-- The location of each variable of a kind. -/
def Interface.locations (i : Interface) : LocationKind → OrderedMap Text Int
  | .attribute => i.attributes
  | .varying => i.varyings

/-- The declaration of a variable that takes locations, under some constants. -/
inductive LocatedForm where
  | attribute (constants : OrderedMap Text Text) (form : VariableForm)
  | varying (constants : OrderedMap Text Text) (form : VaryingForm)

namespace LocatedForm

/-- The kind of the variable. -/
def kind : LocatedForm → LocationKind
  | .attribute _ _ => .attribute
  | .varying _ _ => .varying

/-- The name of the variable. -/
def name : LocatedForm → Text
  | .attribute _ form => form.name
  | .varying _ form => form.name

/-- The type of the variable. -/
def type : LocatedForm → Text
  | .attribute _ form => form.type
  | .varying _ form => form.type

/-- What the type says about the elements of the variable. -/
def extent : LocatedForm → Except Fault Extent
  | .attribute constants form => Extent.ofType constants form.type
  | .varying constants form => Extent.ofType constants form.type

/-- Enters the variable. -/
def declare : LocatedForm → Compile Unit
  | .attribute constants form => Compile.declareAttribute constants form
  | .varying constants form => Compile.declareVarying constants form

/-- The constants for the length in the type. -/
def constants : LocatedForm → OrderedMap Text Text
  | .attribute constants _ => constants
  | .varying constants _ => constants

/-- The first location of the variable. -/
def first (f : LocatedForm) (c : Context) : Int := nextLocation c.interface f.kind

/-- The first location behind the variable. -/
def next (f : LocatedForm) (c : Context) (e : Extent) : Int :=
  f.first c + ShaderType.locationSize f.type * e.room

/-- The numbers in the text that lists the variable at a location. -/
def numbers (c : Context) (location : Int) : LocatedForm → List Int
  | .attribute _ form => location :: (c.components.find? form.name).toList
  | .varying _ _ => [location]

/-- Declarations with the variable listed at a location. -/
def listed (c : Context) (location : Int) : LocatedForm → Declarations → Declarations
  | .attribute _ form, d =>
    let a : Attribute := ⟨location, form.name, form.type, c.components.find? form.name⟩
    { d with attributes := d.attributes ++ [a] }
  | .varying _ form, d =>
    let v : Varying := ⟨location, form.interpolation, form.sampling, form.name, form.type⟩
    { d with varyings := d.varyings ++ [v] }

end LocatedForm

/-! ### Sites -/

/-- A variable that has its locations. -/
structure LocationSite where
  /-- Its declaration. -/
  form : LocatedForm
  /-- What its type says about its elements. -/
  extent : Extent
  /-- Its first location. -/
  first : Int

namespace LocationSite

/-- The number of locations counted for a variable: those of its whole type for each element. -/
def size (s : LocationSite) : Int := ShaderType.locationSize s.form.type * s.extent.room

/-- The locations counted for a variable. -/
def taken (s : LocationSite) : Set Int := Set.Ico s.first (s.first + s.size)

/-- The number of locations of all elements of a variable. -/
def need (s : LocationSite) : Int := ShaderType.locationSize s.extent.element * s.extent.room

/-- The locations of all elements of a variable. -/
def needed (s : LocationSite) : Set Int := Set.Ico s.first (s.first + s.need)

/-- Variables are declared one after the other, and each of them is registered at its first
location then. -/
def Registered : Context → List LocationSite → Prop
  | _, [] => True
  | c, s :: ss =>
    let c' := (s.form.declare c).context
    s.form.extent = .ok s.extent ∧
      (c'.interface.locations s.form.kind).find? s.form.name = some s.first ∧ Registered c' ss

end LocationSite

/-! ### Sizes -/

/-- Every type takes a location. -/
theorem ShaderType.one_le_locationSize (type : Text) :
  1 ≤ locationSize type
  := by
  have htable : ∀ row ∈ locationTable, 1 ≤ row.1 := by
    simp [locationTable]
  have hnumber : ∀ {name n}, numberOf? locationTable name = some n → 1 ≤ n := by
    intro name n h
    obtain ⟨row, hrow, rfl⟩ := Option.map_eq_some_iff.mp h
    apply htable row (List.mem_of_find?_eq_some hrow)
  rw [locationSize]
  split
  next n hn => apply hnumber hn
  · split
    · cases hn : numberOf? locationTable (baseName type).dropLast with
      | none => apply le_refl
      | some n => apply hnumber hn
    · apply le_refl

theorem Extent.one_le_room (e : Extent) :
  1 ≤ e.room
  := le_max_left _ _

namespace LocationSite

theorem size_pos (s : LocationSite) :
  0 < s.size
  := by
  have htype := ShaderType.one_le_locationSize s.form.type
  have hroom := s.extent.one_le_room
  apply Int.mul_pos <;> omega

theorem need_pos (s : LocationSite) :
  0 < s.need
  := by
  have htype := ShaderType.one_le_locationSize s.extent.element
  have hroom := s.extent.one_le_room
  apply Int.mul_pos <;> omega

/-- A variable has enough locations if its whole type counts for as many as that of an
element. -/
theorem needed_subset_taken_iff (s : LocationSite) :
  s.needed ⊆ s.taken ↔
    ShaderType.locationSize s.extent.element ≤ ShaderType.locationSize s.form.type
  := by
  have hroom := s.extent.one_le_room
  have hneed := s.need_pos
  rw [needed, taken, Set.Ico_subset_Ico_iff (by omega), need, size]
  constructor
  · rintro ⟨-, h⟩
    have hle := Int.le_of_mul_le_mul_right (Int.le_of_add_le_add_left h) (by omega)
    exact_mod_cast hle
  · intro h
    refine ⟨le_refl _, ?_⟩
    have hle := Int.mul_le_mul_of_nonneg_right (Int.ofNat_le.mpr h)
      (Int.natCast_nonneg s.extent.room)
    omega

/-! ### Stacks -/

/-- Variables that stand behind each other from a location on, up to some limit. -/
inductive Stacked (limit : Int) : Int → List LocationSite → Prop
  | nil (first : Int) : Stacked limit first []
  | cons {first : Int} {s : LocationSite} {ss : List LocationSite} :
    s.first = first → first + s.size ≤ limit → Stacked limit (first + s.size) ss →
      Stacked limit first (s :: ss)

variable {limit first : Int} {s t : LocationSite} {ss : List LocationSite}

/-- Each variable of a stack takes locations between its start and the limit. -/
theorem Stacked.mem (h : Stacked limit first ss) (hs : s ∈ ss) :
  first ≤ s.first ∧ s.first + s.size ≤ limit
  := by
  induction h with
  | nil => cases hs
  | @cons _ t _ hfirst hlimit _ ih =>
    have hsize := t.size_pos
    rcases List.mem_cons.mp hs with rfl | hs
    · omega
    · have hmem := ih hs
      omega

/-- The variables of a stack take different locations. -/
theorem Stacked.taken_disjoint (h : Stacked limit first ss) :
  ss.Pairwise fun s t => Disjoint s.taken t.taken
  := by
  induction h with
  | nil => apply List.Pairwise.nil
  | cons hfirst _ hrest ih =>
    apply List.Pairwise.cons _ ih
    intro t ht
    have hle := (hrest.mem ht).1
    apply Set.Ico_disjoint_Ico.mpr
    omega

/-- What a variable needs in front of a stack is apart from what the stack needs exactly if it
needs no more than it takes. -/
theorem Stacked.needed_disjoint_cons_iff (h : Stacked limit (s.first + s.size) (t :: ss)) :
  (∀ u ∈ t :: ss, Disjoint s.needed u.needed) ↔ s.needed ⊆ s.taken
  := by
  have hsize := s.size_pos
  have hs := s.need_pos
  have ht := t.need_pos
  have hfirst : t.first = s.first + s.size := by
    cases h with
    | cons hfirst _ _ => apply hfirst
  rw [needed, taken, Set.Ico_subset_Ico_iff (by omega)]
  constructor
  · intro hdisjoint
    have hmeet := Set.Ico_disjoint_Ico.mp (hdisjoint t List.mem_cons_self)
    omega
  · rintro ⟨-, hneed⟩ u hu
    have hle := (h.mem hu).1
    apply Set.Ico_disjoint_Ico.mpr
    omega

/-- The locations that the variables of a stack need are apart exactly if every variable that
stands in front of another one needs no more than it takes. -/
theorem Stacked.needed_disjoint_iff (h : Stacked limit first ss) :
  (ss.Pairwise fun s t => Disjoint s.needed t.needed) ↔
    ∀ s ∈ ss.dropLast, s.needed ⊆ s.taken
  := by
  induction h with
  | nil => simp
  | @cons _ s ss hfirst _ hrest ih =>
    rw [List.pairwise_cons, ih]
    cases ss with
    | nil => simp
    | cons t ts =>
      rw [← hfirst] at hrest
      rw [hrest.needed_disjoint_cons_iff, List.dropLast_cons_cons, List.forall_mem_cons]

end LocationSite

/-! ### Declarations of single variables -/

namespace Context

/-- A context in which the variables of a kind take the locations below `next`. -/
def withNextLocation (c : Context) (kind : LocationKind) (next : Int) : Context :=
  { c with interface := Compile.setNextLocation c.interface next kind }

/-- A context in which the location of a variable is noted. -/
def withLocation (c : Context) (kind : LocationKind) (name : Text) (location : Int) : Context :=
  { c with interface := Compile.noteLocation c.interface name location kind }

end Context

/-- The warning about a type whose length cannot be found out. -/
def Extent.warnings (name : Text) (e : Extent) : List Warning :=
  match e.unresolved with
  | none => []
  | some t => [.unresolvedLength t name]

namespace Compile

variable {constants : OrderedMap Text Text} {type : Text} {e : Extent} {c : Context}

theorem resolveExtent_apply
    (name : Text) (c : Context) (he : Extent.ofType constants type = .ok e) :
  resolveExtent constants name type c = ⟨.ok e, e.warnings name, [], c⟩
  := by
  rw [resolveExtent, he, Extent.warnings]
  dsimp only
  cases e.unresolved <;> rfl

theorem resolveExtent_fail
    (name : Text) (c : Context) {fault : Fault}
    (hfault : Extent.ofType constants type = .error fault) :
  resolveExtent constants name type c = ⟨.error fault, [], [], c⟩
  := by
  rw [resolveExtent, hfault]
  rfl

theorem resolveExtent_of_ok
    {name : Text} (h : (resolveExtent constants name type c).result = .ok e) :
  Extent.ofType constants type = .ok e ∧ (resolveExtent constants name type c).context = c
  := by
  cases he : Extent.ofType constants type with
  | error fault =>
    rw [resolveExtent_fail name c he] at h
    cases h
  | ok e' =>
    rw [resolveExtent_apply name c he] at h ⊢
    obtain rfl := Except.ok.inj h
    exact ⟨rfl, rfl⟩

/-- The room for the elements of a variable, as it is counted for its locations. -/
theorem room_eq (e : Extent) :
  (if (e.length : Int) = 0 then 1 else (e.length : Int)) = e.room
  := by
  rw [Extent.room]
  split <;> omega

/-- A variable takes the next locations of its kind; the first of them is noted if they are within
the limit. -/
theorem locate_apply
    (kind : LocationKind) (name : Text) (c : Context)
    (he : Extent.ofType constants type = .ok e) :
  let first := nextLocation c.interface kind
  let next := first + ShaderType.locationSize type * e.room
  let limit := locationLimit c.limits kind
  locate kind constants name type c
    = if next ≤ limit then
        ⟨.ok first, e.warnings name, [], (c.withNextLocation kind next).withLocation kind name first⟩
      else
        ⟨.error (.ofLocations kind type next limit), e.warnings name, [],
          c.withNextLocation kind next⟩
  := by
  intro first next limit
  have hresolve := resolveExtent_apply name c he
  have hlocation := takeLocations_apply kind type (ShaderType.locationSize type * e.room) c
  rw [← room_eq e, ← takeLocation] at hlocation
  rw [locate, bind_of_ok (a := e) (by rw [hresolve]), hresolve]
  dsimp only at hlocation ⊢
  split
  next hle =>
    rw [room_eq, if_neg (Int.not_lt.mpr hle)] at hlocation
    rw [bind_of_ok (a := first) (by rw [hlocation]), hlocation, update_bind]
    simp only [List.nil_append]
    change Outcome.mk (.ok first) (e.warnings name ++ []) [] _ = _
    rw [List.append_nil]
    rfl
  next hle =>
    rw [room_eq, if_pos (Int.not_le.mp hle)] at hlocation
    rw [bind_of_error (by rw [hlocation]), hlocation]
    simp only [List.append_nil]
    rfl

theorem locate_fail
    (kind : LocationKind) (name : Text) (c : Context) {fault : Fault}
    (hfault : Extent.ofType constants type = .error fault) :
  locate kind constants name type c = ⟨.error fault, [], [], c⟩
  := by
  have hresolve := resolveExtent_fail name c hfault
  rw [locate, bind_of_error (by rw [hresolve]), hresolve]

end Compile

namespace LocatedForm

variable (f : LocatedForm) (c : Context) (e : Extent)

/-- What the variable leaves of a context when its location is noted. -/
def noted : Context :=
  (c.withNextLocation f.kind (f.next c e)).withLocation f.kind f.name (f.first c)

/-- What the variable leaves of a context when it is listed as well. -/
def entered : Context :=
  let c' := f.noted c e
  { c' with interface.declarations := f.listed c (f.first c) c'.interface.declarations }

variable {f c e}

/-- A variable is located and then listed. -/
theorem declare_eq :
  f.declare = (do
    let location ← Compile.locate f.kind f.constants f.name f.type
    let c ← Compile.context
    Compile.listDeclaration (f.numbers c location) (f.listed c location))
  := by
  cases f <;> rfl

/-- A variable is entered, unless there are no locations for it or its text would hold a number with
too many digits.  Either way its locations are taken, and they are noted if they are there. -/
theorem declare_apply (c : Context) (he : f.extent = .ok e) :
  let limit := locationLimit c.limits f.kind
  f.declare c
    = if f.next c e ≤ limit then
        if (f.numbers c (f.first c)).all Text.isWritable then
          ⟨.ok (), e.warnings f.name, [], f.entered c e⟩
        else ⟨.error .unwritableNumber, e.warnings f.name, [], f.noted c e⟩
      else
        ⟨.error (.ofLocations f.kind f.type (f.next c e) limit), e.warnings f.name, [],
          c.withNextLocation f.kind (f.next c e)⟩
  := by
  intro limit
  have hextent : Extent.ofType f.constants f.type = .ok e := by
    rw [← he]
    cases f <;> rfl
  have hlocate : Compile.locate f.kind f.constants f.name f.type c
      = if f.next c e ≤ limit then ⟨.ok (f.first c), e.warnings f.name, [], f.noted c e⟩
        else ⟨.error (.ofLocations f.kind f.type (f.next c e) limit), e.warnings f.name, [],
          c.withNextLocation f.kind (f.next c e)⟩ :=
    Compile.locate_apply f.kind f.name c hextent
  have hnumbers : f.numbers (f.noted c e) (f.first c) = f.numbers c (f.first c) := by
    cases f <;> rfl
  have hlisted : f.listed (f.noted c e) (f.first c) = f.listed c (f.first c) := by
    cases f <;> rfl
  rw [declare_eq]
  split
  next hle =>
    rw [if_pos hle] at hlocate
    rw [Compile.bind_of_ok (a := f.first c) (by rw [hlocate]), hlocate, Compile.context_bind,
      Compile.listDeclaration_apply, hnumbers, hlisted]
    split <;> rw [List.append_nil] <;> rfl
  next hle =>
    rw [if_neg hle] at hlocate
    rw [Compile.bind_of_error (by rw [hlocate]), hlocate]

theorem declare_fail (c : Context) {fault : Fault} (hfault : f.extent = .error fault) :
  f.declare c = ⟨.error fault, [], [], c⟩
  := by
  have hlocate : Compile.locate f.kind f.constants f.name f.type c = ⟨.error fault, [], [], c⟩ := by
    apply Compile.locate_fail
    rw [← hfault]
    cases f <;> rfl
  rw [declare_eq, Compile.bind_of_error (by rw [hlocate]), hlocate]

/-- A variable is entered where its declaration succeeds. -/
theorem entered_of_ok (h : (f.declare c).result = .ok ()) :
  ∃ e, f.extent = .ok e ∧ f.next c e ≤ locationLimit c.limits f.kind ∧
    f.declare c = ⟨.ok (), e.warnings f.name, [], f.entered c e⟩
  := by
  cases he : f.extent with
  | error fault =>
    rw [declare_fail c he] at h
    cases h
  | ok e =>
    have hdeclare := declare_apply c he
    dsimp only at hdeclare
    split at hdeclare
    next hle =>
      split at hdeclare
      · exact ⟨e, rfl, hle, hdeclare⟩
      · rw [hdeclare] at h
        cases h
    next =>
      rw [hdeclare] at h
      cases h

end LocatedForm

namespace Compile

/-- A variable that is declared gets the next locations of its kind. -/
theorem declare_of_ok
    {f : LocatedForm} (h : (f.declare c).result = .ok ()) :
  let c' := (f.declare c).context
  ∃ e, f.extent = .ok e ∧
    (c'.interface.locations f.kind).find? f.name = some (nextLocation c.interface f.kind) ∧
    c'.limits = c.limits ∧
    nextLocation c'.interface f.kind
      = nextLocation c.interface f.kind + ShaderType.locationSize f.type * e.room ∧
    nextLocation c'.interface f.kind ≤ locationLimit c.limits f.kind ∧
    ∀ kind ≠ f.kind, nextLocation c'.interface kind = nextLocation c.interface kind
  := by
  intro c'
  obtain ⟨e, he, hlimit, hdeclare⟩ := LocatedForm.entered_of_ok h
  have hc' : c' = f.entered c e := by
    rw [show c' = _ from congrArg Outcome.context hdeclare]
  rw [hc']
  cases f with
  | «attribute» constants form =>
    refine ⟨e, he, OrderedMap.find?_insert_self _ _ _, rfl, rfl, hlimit, ?_⟩
    rintro (_ | _) hkind
    · exact absurd rfl hkind
    · rfl
  | varying constants form =>
    refine ⟨e, he, OrderedMap.find?_insert_self _ _ _, rfl, rfl, hlimit, ?_⟩
    rintro (_ | _) hkind
    · rfl
    · exact absurd rfl hkind

end Compile

/-! ### Declarations one after the other -/

open LocationSite (Registered Stacked)

/-- Variables that are declared one after the other have their locations stacked, for each kind
on top of those in use before. -/
theorem Compile.stacked_of_declare
    {c : Context} {fs : List LocatedForm} {us : List Unit}
    (h : (each LocatedForm.declare fs c).result = .ok us) :
  ∃ ss : List LocationSite, ss.map LocationSite.form = fs ∧ Registered c ss ∧
    ∀ kind, Stacked (locationLimit c.limits kind) (nextLocation c.interface kind)
      (ss.filter (·.form.kind = kind))
  := by
  induction fs generalizing c us with
  | nil =>
    use [], rfl, trivial
    intro kind
    apply Stacked.nil
  | cons f fs ih =>
    obtain ⟨_, hf, hrest⟩ := ok_of_bind h
    obtain ⟨_, hfs, -⟩ := ok_of_bind hrest
    obtain ⟨ss, rfl, hregistered, hstacked⟩ := ih hfs
    obtain ⟨e, he, hfirst, hlimits, hnext, hlimit, hother⟩ := declare_of_ok hf
    let s : LocationSite := ⟨f, e, nextLocation c.interface f.kind⟩
    use s :: ss, rfl, ⟨he, hfirst, hregistered⟩
    intro kind
    have hkind := hstacked kind
    rw [hlimits] at hkind
    by_cases heq : f.kind = kind
    · subst heq
      rw [List.filter_cons_of_pos (by simp [s])]
      rw [hnext] at hkind hlimit
      apply Stacked.cons (s := s) rfl hlimit hkind
    · rw [List.filter_cons_of_neg (by simp [s, heq])]
      rw [hother kind (Ne.symm heq)] at hkind
      apply hkind

/-- Where variables are declared one after the other at the beginning of a pair, each one is
registered at its first location.  The locations counted for the variables of a kind are apart
and within the limit.  The locations of all their elements are apart exactly if each variable
that is followed by another one needs no more than is counted for it; this means that the type
of its elements has no more locations than its whole type.  If this holds of the last variable
as well, the elements stay within the limit. -/
theorem locations_disjoint_iff
    {c : Context} {fs : List LocatedForm} {us : List Unit}
    (h : (Compile.each LocatedForm.declare fs c.begin).result = .ok us) :
  ∃ ss : List LocationSite, ss.map LocationSite.form = fs ∧ Registered c.begin ss ∧
    (∀ s ∈ ss, s.needed ⊆ s.taken ↔
      ShaderType.locationSize s.extent.element ≤ ShaderType.locationSize s.form.type) ∧
    ∀ kind,
      let ts := ss.filter (·.form.kind = kind)
      let room := Set.Ico 0 (locationLimit c.limits kind)
      (ts.Pairwise fun s t => Disjoint s.taken t.taken) ∧ (∀ s ∈ ts, s.taken ⊆ room) ∧
      ((ts.Pairwise fun s t => Disjoint s.needed t.needed) ↔
        ∀ s ∈ ts.dropLast, s.needed ⊆ s.taken) ∧
      ((∀ s ∈ ts, s.needed ⊆ s.taken) → ∀ s ∈ ts, s.needed ⊆ room)
  := by
  obtain ⟨ss, hforms, hregistered, hstacked⟩ := Compile.stacked_of_declare h
  use ss, hforms, hregistered, fun s _ => s.needed_subset_taken_iff
  intro kind ts room
  have hts : Stacked (locationLimit c.limits kind) 0 ts := by
    cases kind <;> apply hstacked
  have hroom : ∀ s ∈ ts, s.taken ⊆ room := by
    intro s hs
    obtain ⟨hfirst, hlast⟩ := hts.mem hs
    apply Set.Ico_subset_Ico hfirst hlast
  use hts.taken_disjoint, hroom, hts.needed_disjoint_iff
  intro hneeded s hs
  apply (hneeded s hs).trans (hroom s hs)

/-- A matrix and an array of vectors get four and three locations. -/
theorem locations_disjoint_iff_columns :
  let c := Context.fresh .engine {} ∅
  let fs : List LocatedForm := [.attribute ∅ ⟨"model", "mat4x4<f32>"⟩,
    .attribute ∅ ⟨"weights", "array<vec4<f32>, 3>"⟩]
  (Compile.each LocatedForm.declare fs c.begin).result = .ok [(), ()] ∧
    ∃ ss : List LocationSite, ss.map LocationSite.form = fs ∧ Registered c.begin ss ∧
      ((ss.filter (·.form.kind = .attribute)).Pairwise fun s t => Disjoint s.needed t.needed)
  := by
  intro c fs
  have h : (Compile.each LocatedForm.declare fs c.begin).result = .ok [(), ()] := by
    decide +kernel
  obtain ⟨ss, hforms, hregistered, hneeded, hdisjoint⟩ := locations_disjoint_iff h
  refine ⟨h, ss, hforms, hregistered, (hdisjoint .attribute).2.2.1.mpr ?_⟩
  obtain ⟨s, ss, rfl, hs, hforms⟩ := List.map_eq_cons_iff.mp hforms
  obtain ⟨t, ss, rfl, ht, hforms⟩ := List.map_eq_cons_iff.mp hforms
  obtain rfl := List.map_eq_nil_iff.mp hforms
  have hextent : s.extent = ⟨"mat4x4<f32>", 0, none⟩ := by
    have hok := hregistered.1
    rw [hs] at hok
    apply Except.ok.inj (hok.symm.trans _)
    decide +kernel
  rw [List.filter_cons_of_pos (by rw [hs]; rfl), List.filter_cons_of_pos (by rw [ht]; rfl)]
  intro u hu
  obtain rfl := List.mem_singleton.mp hu
  rw [hneeded u List.mem_cons_self, hs, hextent]
  decide +kernel

/-- An array of matrices is counted for one location for each matrix, so the next attribute gets
a location in the middle of the first matrix. -/
theorem not_disjoint_matrices :
  let c := Context.fresh .engine {} ∅
  let form : VariableForm := ⟨"a", "array<mat4x4<f32>, 2>"⟩
  let form' : VariableForm := ⟨"b", "f32"⟩
  let s : LocationSite := ⟨.attribute ∅ form, ⟨"mat4x4<f32>", 2, none⟩, 0⟩
  let s' : LocationSite := ⟨.attribute ∅ form', ⟨"f32", 0, none⟩, 2⟩
  Declaration.ofLine? "attribute a : array<mat4x4<f32>, 2>;" = some (.attribute form) ∧
    Declaration.ofLine? "attribute b : f32;" = some (.attribute form') ∧
    (Compile.each LocatedForm.declare [s.form, s'.form] c.begin).result = .ok [(), ()] ∧
    Registered c.begin [s, s'] ∧ ¬ Disjoint s.needed s'.needed
  := by
  intro c form form' s s'
  refine ⟨by decide +kernel, by decide +kernel, by decide +kernel, ?_, ?_⟩
  · refine ⟨by decide +kernel, by decide +kernel, by decide +kernel, by decide +kernel, trivial⟩
  · have hneed : s.need = 8 := by decide +kernel
    have hneed' : s'.need = 1 := by decide +kernel
    rw [LocationSite.needed, LocationSite.needed, hneed, hneed', Set.not_disjoint_iff]
    use 2
    constructor <;> constructor <;> decide

end ShaderPair
