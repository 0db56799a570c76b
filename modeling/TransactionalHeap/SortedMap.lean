/-!
# Finite maps in ascending key order

A `SortedMap κ α` is a list of bindings whose keys strictly ascend. Keys are anything with an
injective rank in the natural numbers, so every order question about a map is one about numbers.
Because the order is part of the type, two maps that answer every lookup alike are equal
(`SortedMap.ext_find?`), and listing a map always gives its keys in ascending order.
-/

namespace TransactionalHeap

/-- Keys that are ordered by an injective rank. -/
class Ranked (κ : Type) where
  rank : κ → Nat
  rank_injective : ∀ {a b : κ}, rank a = rank b → a = b

export Ranked (rank)

instance : Ranked Nat := ⟨id, fun h => h⟩

instance : Ranked UInt64 := ⟨UInt64.toNat, fun h => UInt64.toNat_inj.mp h⟩

/-- Bindings whose keys strictly ascend. -/
abbrev Ascending {κ α : Type} [Ranked κ] (entries : List (κ × α)) : Prop :=
  entries.Pairwise fun a b => rank a.1 < rank b.1

structure SortedMap (κ α : Type) [Ranked κ] where
  entries : List (κ × α) := []
  ascending : Ascending entries := by exact List.Pairwise.nil

namespace SortedMap

variable {κ α β ε : Type} [Ranked κ]

/-! ## Operations on the bindings -/

/-- The value bound to `key`, searched from the front. -/
def lookup (key : κ) : List (κ × α) → Option α
  | [] => none
  | (k, a) :: rest => if rank k = rank key then some a else lookup key rest

/-- Bind `key`, replacing its former value or opening a place for it. -/
def place (key : κ) (value : α) : List (κ × α) → List (κ × α)
  | [] => [(key, value)]
  | (k, a) :: rest =>
    if rank key < rank k then (key, value) :: (k, a) :: rest
    else if rank key = rank k then (key, value) :: rest
    else (k, a) :: place key value rest

theorem mem_place {key : κ} {value : α} {entry : κ × α} {entries : List (κ × α)}
    (h : entry ∈ place key value entries) : entry = (key, value) ∨ entry ∈ entries := by
  induction entries with
  | nil => simpa [place] using h
  | cons head rest ih => grind [place]

theorem ascending_place (key : κ) (value : α) {entries : List (κ × α)}
    (h : Ascending entries) : Ascending (place key value entries) := by
  induction entries with
  | nil => simp [place, Ascending]
  | cons head rest ih =>
    obtain ⟨k, a⟩ := head
    have ⟨hhead, hrest⟩ := List.pairwise_cons.mp h
    unfold place
    split
    · refine List.pairwise_cons.mpr ⟨fun e he => ?_, h⟩
      rcases List.mem_cons.mp he with rfl | he
      · assumption
      · exact Nat.lt_trans ‹_› (hhead e he)
    · split
      · refine List.pairwise_cons.mpr ⟨fun e he => ?_, hrest⟩
        have := hhead e he
        simp_all
      · refine List.pairwise_cons.mpr ⟨fun e he => ?_, ih hrest⟩
        rcases mem_place he with rfl | he
        · simp only; omega
        · exact hhead e he

theorem ascending_of_keys {entries : List (κ × α)} {others : List (κ × β)}
    (hkeys : others.map Prod.fst = entries.map Prod.fst) (h : Ascending entries) :
    Ascending others := by
  have hrank : (entries.map Prod.fst).Pairwise fun a b => rank a < rank b :=
    List.Pairwise.map _ (fun _ _ h => h) h
  rw [← hkeys, List.pairwise_map] at hrank
  exact hrank

theorem ascending_filterMap (f : κ → α → Option β) {entries : List (κ × α)}
    (h : Ascending entries) :
    Ascending (entries.filterMap fun e => (f e.1 e.2).map (e.1, ·)) := by
  refine List.Pairwise.filterMap _ ?_ h
  intro a b hab a' ha b' hb
  simp only [Option.map_eq_some_iff] at ha hb
  obtain ⟨_, _, rfl⟩ := ha
  obtain ⟨_, _, rfl⟩ := hb
  exact hab

/-! ## The map -/

instance : EmptyCollection (SortedMap κ α) := ⟨⟨[], .nil⟩⟩

instance : Inhabited (SortedMap κ α) := ⟨∅⟩

def find? (m : SortedMap κ α) (key : κ) : Option α := lookup key m.entries

def contains (m : SortedMap κ α) (key : κ) : Bool := (m.find? key).isSome

def keys (m : SortedMap κ α) : List κ := m.entries.map Prod.fst

def values (m : SortedMap κ α) : List α := m.entries.map Prod.snd

def size (m : SortedMap κ α) : Nat := m.entries.length

def isEmpty (m : SortedMap κ α) : Bool := m.entries.isEmpty

def insert (m : SortedMap κ α) (key : κ) (value : α) : SortedMap κ α where
  entries := place key value m.entries
  ascending := ascending_place key value m.ascending

def filter (m : SortedMap κ α) (keep : κ → α → Bool) : SortedMap κ α where
  entries := m.entries.filter fun e => keep e.1 e.2
  ascending := m.ascending.filter _

def erase (m : SortedMap κ α) (key : κ) : SortedMap κ α :=
  m.filter fun k _ => rank k != rank key

/-- Apply `f` to every value; the keys stay. -/
def map (m : SortedMap κ α) (f : κ → α → β) : SortedMap κ β where
  entries := m.entries.map fun e => (e.1, f e.1 e.2)
  ascending := List.pairwise_map.mpr m.ascending

/-- Replace the value of a bound key; an unbound key stays unbound. -/
def modify (m : SortedMap κ α) (key : κ) (f : α → α) : SortedMap κ α :=
  match m.find? key with
  | some value => m.insert key (f value)
  | none => m

/-- Apply `f` to every binding in ascending order, ending at the first failure. -/
def traverseEntries (f : κ → α → Except ε β) :
    (entries : List (κ × α)) →
      Except ε { out : List (κ × β) // out.map Prod.fst = entries.map Prod.fst }
  | [] => .ok ⟨[], rfl⟩
  | (k, a) :: rest =>
    match f k a, traverseEntries f rest with
    | .ok b, .ok out => .ok ⟨(k, b) :: out.1, by simp [out.2]⟩
    | .error e, _ => .error e
    | .ok _, .error e => .error e

def traverse (m : SortedMap κ α) (f : κ → α → Except ε β) : Except ε (SortedMap κ β) :=
  (traverseEntries f m.entries).map fun out => ⟨out.1, ascending_of_keys out.2 m.ascending⟩

/-- Keep the bindings for which `f` gives a value, and bind that. -/
def filterMap (m : SortedMap κ α) (f : κ → α → Option β) : SortedMap κ β where
  entries := m.entries.filterMap fun e => (f e.1 e.2).map (e.1, ·)
  ascending := ascending_filterMap f m.ascending

/-- Both maps together; where both bind a key, the second counts. -/
def union (m n : SortedMap κ α) : SortedMap κ α :=
  n.entries.foldl (fun m e => m.insert e.1 e.2) m

/-! ## Lookups through the operations -/

@[simp] theorem find?_empty (key : κ) : (∅ : SortedMap κ α).find? key = none := rfl

theorem lookup_place (key other : κ) (value : α) (entries : List (κ × α)) :
    lookup other (place key value entries) =
      if rank key = rank other then some value else lookup other entries := by
  induction entries with
  | nil => rfl
  | cons head rest ih =>
    obtain ⟨k, a⟩ := head
    unfold place
    split
    · rfl
    · split
      · simp only [lookup]
        split <;> simp_all
      · simp only [lookup, ih]
        split <;> simp_all

theorem find?_insert (m : SortedMap κ α) (key other : κ) (value : α) :
    (m.insert key value).find? other =
      if rank key = rank other then some value else m.find? other :=
  lookup_place key other value m.entries

theorem mem_of_lookup {key : κ} {value : α} {entries : List (κ × α)}
    (h : lookup key entries = some value) : (key, value) ∈ entries := by
  induction entries with
  | nil => simp [lookup] at h
  | cons head rest ih =>
    obtain ⟨k, a⟩ := head
    simp only [lookup] at h
    split at h
    · next hk =>
      cases h
      rw [Ranked.rank_injective hk]
      exact List.mem_cons_self
    · exact List.mem_cons_of_mem _ (ih h)

theorem lookup_of_mem {key : κ} {value : α} {entries : List (κ × α)} (hasc : Ascending entries)
    (h : (key, value) ∈ entries) : lookup key entries = some value := by
  induction entries with
  | nil => simp at h
  | cons head rest ih =>
    obtain ⟨k, a⟩ := head
    have ⟨hhead, hrest⟩ := List.pairwise_cons.mp hasc
    simp only [lookup]
    rcases List.mem_cons.mp h with he | h
    · cases he; simp
    · have := hhead _ h
      rw [if_neg (by simp only at this; omega)]
      exact ih hrest h

/-- A binding is listed exactly when the lookup of its key gives its value. -/
theorem mem_entries_iff {m : SortedMap κ α} {key : κ} {value : α} :
    (key, value) ∈ m.entries ↔ m.find? key = some value :=
  ⟨lookup_of_mem m.ascending, mem_of_lookup⟩

theorem lookup_filter {entries : List (κ × α)} (hasc : Ascending entries) (keep : κ → α → Bool)
    (key : κ) : lookup key (entries.filter fun e => keep e.1 e.2) =
      (lookup key entries).filter (keep key) := by
  induction entries with
  | nil => rfl
  | cons head rest ih =>
    obtain ⟨k, a⟩ := head
    have ⟨hhead, hrest⟩ := List.pairwise_cons.mp hasc
    have hlater : rank k = rank key → lookup key rest = none := fun hk => by
      cases hl : lookup key rest with
      | none => rfl
      | some v =>
        have := hhead _ (mem_of_lookup hl)
        simp only at this
        omega
    by_cases hk : rank k = rank key
    · have hkk := Ranked.rank_injective hk
      subst hkk
      have hnone := hlater rfl
      by_cases hp : keep k a
      · simp [lookup, Option.filter, hp]
      · simp [lookup, Option.filter, hp, ih hrest, hnone]
    · by_cases hp : keep k a <;> simp [lookup, hp, hk, ih hrest]

theorem find?_filter (m : SortedMap κ α) (keep : κ → α → Bool) (key : κ) :
    (m.filter keep).find? key = (m.find? key).filter (keep key) :=
  lookup_filter m.ascending keep key

theorem find?_erase (m : SortedMap κ α) (key other : κ) :
    (m.erase key).find? other = if rank key = rank other then none else m.find? other := by
  rw [erase, find?_filter]
  split
  · next h => cases m.find? other <;> simp [h]
  · next h => cases m.find? other <;> simp [Ne.symm h]

theorem find?_map (m : SortedMap κ α) (f : κ → α → β) (key : κ) :
    (m.map f).find? key = (m.find? key).map (f key) := by
  obtain ⟨entries, _⟩ := m
  simp only [find?, map]
  induction entries with
  | nil => rfl
  | cons head rest ih =>
    obtain ⟨k, a⟩ := head
    simp only [List.map_cons, lookup]
    split
    · next hk => rw [Ranked.rank_injective hk]; rfl
    · exact ih (List.pairwise_cons.mp ‹_›).2

theorem lookup_filterMap (f : κ → α → Option β) {entries : List (κ × α)}
    (hasc : Ascending entries) (key : κ) :
    lookup key (entries.filterMap fun e => (f e.1 e.2).map (e.1, ·)) =
      (lookup key entries).bind (f key) := by
  induction entries with
  | nil => rfl
  | cons head rest ih =>
    obtain ⟨k, a⟩ := head
    have ⟨hhead, hrest⟩ := List.pairwise_cons.mp hasc
    have hlater : rank k = rank key → lookup key rest = none := fun hk => by
      cases hl : lookup key rest with
      | none => rfl
      | some v =>
        have := hhead _ (mem_of_lookup hl)
        simp only at this
        omega
    by_cases hk : rank k = rank key
    · have hkk := Ranked.rank_injective hk
      subst hkk
      have hnone := hlater rfl
      cases hf : f k a with
      | none => simp [lookup, hf, ih hrest, hnone]
      | some b => simp [lookup, hf]
    · cases hf : f k a <;> simp [lookup, hf, hk, ih hrest]

theorem find?_filterMap (m : SortedMap κ α) (f : κ → α → Option β) (key : κ) :
    (m.filterMap f).find? key = (m.find? key).bind (f key) :=
  lookup_filterMap f m.ascending key

theorem find?_foldl_insert {entries : List (κ × α)} (hasc : Ascending entries)
    (m : SortedMap κ α) (key : κ) :
    (entries.foldl (fun m e => m.insert e.1 e.2) m).find? key =
      (lookup key entries).or (m.find? key) := by
  induction entries generalizing m with
  | nil => rfl
  | cons head rest ih =>
    obtain ⟨k, a⟩ := head
    have ⟨hhead, hrest⟩ := List.pairwise_cons.mp hasc
    simp only [List.foldl_cons, ih hrest, lookup, find?_insert]
    split
    · next hk =>
      cases hl : lookup key rest with
      | none => simp
      | some v =>
        have := hhead _ (mem_of_lookup hl)
        simp only at this
        omega
    · rfl

theorem find?_union (m n : SortedMap κ α) (key : κ) :
    (m.union n).find? key = (n.find? key).or (m.find? key) :=
  find?_foldl_insert n.ascending m key

theorem lookup_ext {xs ys : List (κ × α)} (hx : Ascending xs) (hy : Ascending ys)
    (h : ∀ key, lookup key xs = lookup key ys) : xs = ys := by
  induction xs generalizing ys with
  | nil =>
    cases ys with
    | nil => rfl
    | cons head rest =>
      have := h head.1
      simp [lookup] at this
  | cons x xs ih =>
    cases ys with
    | nil =>
      have := h x.1
      simp [lookup] at this
    | cons y ys =>
      have ⟨hxh, hxr⟩ := List.pairwise_cons.mp hx
      have ⟨hyh, hyr⟩ := List.pairwise_cons.mp hy
      have hmem : (x.1, x.2) ∈ y :: ys := mem_of_lookup (by rw [← h]; simp [lookup])
      have hmem' : (y.1, y.2) ∈ x :: xs := mem_of_lookup (by rw [h]; simp [lookup])
      have hxy : x = y := by
        rcases List.mem_cons.mp hmem with he | hm
        · exact he
        · rcases List.mem_cons.mp hmem' with he | hm'
          · exact he.symm
          · have h1 := hyh _ hm
            have h2 := hxh _ hm'
            simp only at h1 h2
            omega
      subst hxy
      congr 1
      refine ih hxr hyr fun key => ?_
      have hkey := h key
      simp only [lookup] at hkey
      by_cases hk : rank x.1 = rank key
      · have habsent {zs : List (κ × α)} (hz : ∀ e ∈ zs, rank x.1 < rank e.1) :
            lookup key zs = none := by
          cases hl : lookup key zs with
          | none => rfl
          | some v =>
            have := hz _ (mem_of_lookup hl)
            simp only at this
            omega
        rw [habsent hxh, habsent hyh]
      · simpa [hk] using hkey

/-- Maps that answer every lookup alike are equal. -/
theorem ext_find? {m n : SortedMap κ α} (h : ∀ key, m.find? key = n.find? key) : m = n := by
  obtain ⟨xs, hx⟩ := m
  obtain ⟨ys, hy⟩ := n
  have : xs = ys := lookup_ext hx hy h
  subst this
  rfl

end SortedMap

end TransactionalHeap
