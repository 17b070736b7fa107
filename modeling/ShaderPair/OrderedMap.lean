/-!
# Ordered maps

An `OrderedMap κ α` is a finite map that remembers the order in which its keys came in: a list
of entries with pairwise distinct keys.  `OrderedMap.insert` gives a key a value; a key that
is there already keeps its place.  The two laws `OrderedMap.find?_insert_self` and
`OrderedMap.find?_insert_of_ne` determine the map, `OrderedMap.keys_insert` determines the
order.
-/

namespace ShaderPair

/-- A finite map with its keys in the order of their first insertion. -/
@[ext]
structure OrderedMap (κ α : Type) where
  /-- The keys and their values, in order. -/
  entries : List (κ × α)
  /-- No key occurs twice. -/
  nodup : (entries.map Prod.fst).Nodup
  deriving DecidableEq

namespace OrderedMap

variable {κ α : Type}

/-- The keys in order. -/
def keys (m : OrderedMap κ α) : List κ := m.entries.map Prod.fst

/-- The values in the order of their keys. -/
def values (m : OrderedMap κ α) : List α := m.entries.map Prod.snd

/-- The map without keys. -/
def empty : OrderedMap κ α := ⟨[], .nil⟩

instance : Inhabited (OrderedMap κ α) := ⟨empty⟩

instance : EmptyCollection (OrderedMap κ α) := ⟨empty⟩

@[simp]
theorem entries_empty :
  (∅ : OrderedMap κ α).entries = []
  := rfl

@[simp]
theorem keys_empty :
  (∅ : OrderedMap κ α).keys = []
  := rfl

variable [DecidableEq κ]

/-! ### Lists of entries -/

/-- The value of the first entry with the key `k`. -/
def lookup (k : κ) : List (κ × α) → Option α
  | [] => none
  | (k', a) :: rest => if k' = k then some a else lookup k rest

/-- Gives the key `k` the value `a`, at its place or at the end. -/
def assign (k : κ) (a : α) : List (κ × α) → List (κ × α)
  | [] => [(k, a)]
  | (k', a') :: rest => if k' = k then (k, a) :: rest else (k', a') :: assign k a rest

theorem map_fst_assign (k : κ) (a : α) (es : List (κ × α)) :
  (assign k a es).map Prod.fst
    = if k ∈ es.map Prod.fst then es.map Prod.fst else es.map Prod.fst ++ [k]
  := by
  induction es with
  | nil => simp [assign]
  | cons e rest ih =>
    obtain ⟨k', a'⟩ := e
    by_cases h : k' = k
    · simp [assign, h]
    · have h' : ¬ k = k' := fun e => h e.symm
      rw [assign, if_neg h, List.map_cons, ih]
      by_cases hm : k ∈ rest.map Prod.fst
      · rw [if_pos hm, if_pos (by simp [hm])]
        rfl
      · have hk : k ∉ ((k', a') :: rest).map Prod.fst := by
          simp only [List.map_cons, List.mem_cons, not_or]
          exact ⟨h', hm⟩
        rw [if_neg hm, if_neg hk]
        rfl

theorem nodup_assign
    (k : κ) (a : α) {es : List (κ × α)} (h : (es.map Prod.fst).Nodup) :
  ((assign k a es).map Prod.fst).Nodup
  := by
  rw [map_fst_assign]
  split
  · exact h
  next hk =>
    rw [List.nodup_append]
    refine ⟨h, by simp, ?_⟩
    intro x hx y hy
    rw [List.mem_singleton.mp hy]
    exact fun e => hk (e ▸ hx)

theorem lookup_assign_self (k : κ) (a : α) (es : List (κ × α)) :
  lookup k (assign k a es) = some a
  := by
  induction es with
  | nil => simp [assign, lookup]
  | cons e rest ih =>
    obtain ⟨k', a'⟩ := e
    by_cases h : k' = k <;> simp [assign, lookup, h, ih]

theorem lookup_assign_of_ne
    {k k' : κ} (h : k' ≠ k) (a : α) (es : List (κ × α)) :
  lookup k' (assign k a es) = lookup k' es
  := by
  induction es with
  | nil => simp [assign, lookup, Ne.symm h]
  | cons e rest ih =>
    obtain ⟨k₁, a₁⟩ := e
    by_cases h₁ : k₁ = k
    · subst h₁
      simp [assign, lookup, Ne.symm h]
    · rw [assign, if_neg h₁, lookup, lookup, ih]

theorem lookup_eq_none_iff {k : κ} {es : List (κ × α)} :
  lookup k es = none ↔ k ∉ es.map Prod.fst
  := by
  induction es with
  | nil => simp [lookup]
  | cons e rest ih =>
    obtain ⟨k', a'⟩ := e
    by_cases h : k' = k
    · simp [lookup, h]
    · simp only [lookup, if_neg h, ih, List.map_cons, List.mem_cons, not_or]
      exact ⟨fun hk => ⟨Ne.symm h, hk⟩, fun hk => hk.2⟩

theorem mem_of_lookup {k : κ} {a : α} {es : List (κ × α)} (h : lookup k es = some a) :
  (k, a) ∈ es
  := by
  induction es with
  | nil => simp [lookup] at h
  | cons e rest ih =>
    obtain ⟨k', a'⟩ := e
    by_cases hk : k' = k
    · simp only [lookup, if_pos hk, Option.some.injEq] at h
      simp [hk, h]
    · rw [lookup, if_neg hk] at h
      exact List.mem_cons_of_mem _ (ih h)

theorem lookup_of_mem
    {k : κ} {a : α} {es : List (κ × α)} (hes : (es.map Prod.fst).Nodup) (h : (k, a) ∈ es) :
  lookup k es = some a
  := by
  induction es with
  | nil => cases h
  | cons e rest ih =>
    obtain ⟨k', a'⟩ := e
    obtain ⟨hk', hrest⟩ := List.nodup_cons.mp hes
    rcases List.mem_cons.mp h with heq | hmem
    · obtain ⟨rfl, rfl⟩ := Prod.mk.inj heq
      simp [lookup]
    · have hne : k' ≠ k := by
        intro heq
        have hk : k ∈ rest.map Prod.fst := List.mem_map_of_mem (f := Prod.fst) hmem
        rw [← heq] at hk
        exact hk' hk
      rw [lookup, if_neg hne, ih hrest hmem]

theorem assign_of_not_mem {k : κ} {es : List (κ × α)} (h : k ∉ es.map Prod.fst) (a : α) :
  assign k a es = es ++ [(k, a)]
  := by
  induction es with
  | nil => rfl
  | cons e rest ih =>
    obtain ⟨k', a'⟩ := e
    simp only [List.map_cons, List.mem_cons, not_or] at h
    rw [assign, if_neg (Ne.symm h.1), ih h.2]
    rfl

/-- Where a key gets a value that looks like its old one, all entries look as before. -/
theorem map_assign_of_lookup
    {β : Type} {f : κ × α → β} {k : κ} {a a' : α} {es : List (κ × α)}
    (h : lookup k es = some a') (hf : f (k, a) = f (k, a')) :
  (assign k a es).map f = es.map f
  := by
  induction es with
  | nil => simp [lookup] at h
  | cons e rest ih =>
    obtain ⟨k₁, a₁⟩ := e
    by_cases hk : k₁ = k
    · simp only [lookup, if_pos hk, Option.some.injEq] at h
      simp [assign, hk, hf, h]
    · rw [lookup, if_neg hk] at h
      rw [assign, if_neg hk, List.map_cons, ih h, List.map_cons]

/-! ### Maps -/

/-- The value of a key. -/
def find? (m : OrderedMap κ α) (k : κ) : Option α := lookup k m.entries

/-- Whether a key has a value. -/
def contains (m : OrderedMap κ α) (k : κ) : Bool := (m.find? k).isSome

/-- Gives the key `k` the value `a`.  A key that is there already keeps its place, a new key
comes last. -/
def insert (m : OrderedMap κ α) (k : κ) (a : α) : OrderedMap κ α :=
  ⟨assign k a m.entries, nodup_assign k a m.nodup⟩

/-- The map that results from inserting entries one after the other. -/
def ofList (es : List (κ × α)) : OrderedMap κ α :=
  es.foldl (fun m e => m.insert e.1 e.2) empty

@[simp]
theorem find?_empty (k : κ) :
  (∅ : OrderedMap κ α).find? k = none
  := rfl

@[simp]
theorem find?_insert_self (m : OrderedMap κ α) (k : κ) (a : α) :
  (m.insert k a).find? k = some a
  := lookup_assign_self k a m.entries

theorem find?_insert_of_ne (m : OrderedMap κ α) {k k' : κ} (h : k' ≠ k) (a : α) :
  (m.insert k a).find? k' = m.find? k'
  := lookup_assign_of_ne h a m.entries

theorem keys_insert (m : OrderedMap κ α) (k : κ) (a : α) :
  (m.insert k a).keys = if k ∈ m.keys then m.keys else m.keys ++ [k]
  := map_fst_assign k a m.entries

theorem find?_eq_none_iff {m : OrderedMap κ α} {k : κ} :
  m.find? k = none ↔ k ∉ m.keys
  := lookup_eq_none_iff

theorem contains_iff {m : OrderedMap κ α} {k : κ} :
  m.contains k = true ↔ k ∈ m.keys
  := by
  rw [contains, Option.isSome_iff_ne_none, Ne, find?_eq_none_iff, Decidable.not_not]

/-- The entries are the keys with their values. -/
theorem mem_entries_iff {m : OrderedMap κ α} {k : κ} {a : α} :
  (k, a) ∈ m.entries ↔ m.find? k = some a
  := ⟨lookup_of_mem m.nodup, mem_of_lookup⟩

/-- A new key comes last. -/
theorem entries_insert_of_find?_eq_none
    {m : OrderedMap κ α} {k : κ} (h : m.find? k = none) (a : α) :
  (m.insert k a).entries = m.entries ++ [(k, a)]
  := assign_of_not_mem (lookup_eq_none_iff.mp h) a

/-- Where a key gets a value that looks like its old one, all entries look as before. -/
theorem map_entries_insert_of_find?
    {β : Type} {f : κ × α → β} {m : OrderedMap κ α} {k : κ} {a a' : α}
    (h : m.find? k = some a') (hf : f (k, a) = f (k, a')) :
  (m.insert k a).entries.map f = m.entries.map f
  := map_assign_of_lookup h hf

/-- Giving a key a value adds how it looks, if the key does not look different already. -/
theorem mem_map_entries_insert
    {β : Type} {f : κ → α → β} {m : OrderedMap κ α} {k : κ} {a : α}
    (hf : ∀ a', m.find? k = some a' → f k a = f k a') {x : β} :
  x ∈ (m.insert k a).entries.map (fun e => f e.1 e.2) ↔
    x ∈ m.entries.map (fun e => f e.1 e.2) ∨ x = f k a
  := by
  cases hk : m.find? k with
  | none =>
    rw [entries_insert_of_find?_eq_none hk, List.map_append, List.mem_append]
    simp
  | some a' =>
    rw [map_entries_insert_of_find? (f := fun e => f e.1 e.2) hk (hf a' hk)]
    constructor
    · apply Or.inl
    · rintro (hx | rfl)
      · exact hx
      · rw [hf a' hk]
        exact List.mem_map_of_mem (f := fun e => f e.1 e.2) (mem_entries_iff.mpr hk)

/-- Giving a key the value that it has changes nothing. -/
theorem insert_of_find? {m : OrderedMap κ α} {k : κ} {a : α} (h : m.find? k = some a) :
  m.insert k a = m
  := by
  apply OrderedMap.ext
  have hentries := map_entries_insert_of_find? (f := id) h rfl
  simp only [List.map_id] at hentries
  exact hentries

end OrderedMap

end ShaderPair
