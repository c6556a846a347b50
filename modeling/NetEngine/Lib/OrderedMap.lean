import Mathlib.Data.List.Basic
import Mathlib.Data.List.Nodup
import Mathlib.Data.List.Perm.Basic

/-!
# Ordered maps

A finite map is a list of entries whose keys strictly increase, so walking the
list is walking the keys in order.  The order is part of the structure: a map
that lists a key twice, or out of order, cannot be built.

`insertNew` keeps an entry that is already there, `set` overwrites it and
`modify` edits it in place.  The lemmas describe every operation through
`find?` and through the list of keys.
-/

namespace NetEngine

universe u v

section Entries

variable {κ : Type u} {α : Type v} [DecidableEq κ]

/-- First value stored under a key. -/
def lookupEntry (k : κ) : List (κ × α) → Option α
  | [] => none
  | e :: rest =>
      if e.1 = k then some e.2 else lookupEntry k rest

/-- A key outside the list is not looked up. -/
theorem lookupEntry_eq_none_iff
    (k : κ) (entries : List (κ × α)) :
    lookupEntry k entries = none ↔ k ∉ entries.map Prod.fst := by
  induction entries with
  | nil =>
      simp [lookupEntry]
  | cons e rest ih =>
      by_cases h : e.1 = k
      · simp [lookupEntry, h]
      · have h' : ¬ k = e.1 := fun hk => h hk.symm
        simp [lookupEntry, h, h', ih]

/-- Whatever a lookup finds is an entry of the list. -/
theorem mem_of_lookupEntry
    {k : κ} {v : α} {entries : List (κ × α)}
    (h : lookupEntry k entries = some v) :
    (k, v) ∈ entries := by
  induction entries with
  | nil =>
      simp [lookupEntry] at h
  | cons e rest ih =>
      by_cases hek : e.1 = k
      · have hv : e.2 = v := by simpa [lookupEntry, hek] using h
        have he : e = (k, v) := Prod.ext hek hv
        simp [he]
      · exact List.mem_cons_of_mem _ (ih (by simpa [lookupEntry, hek] using h))

/-- Erasing the entries of one key leaves the other keys alone. -/
theorem lookupEntry_filter_ne
    (k j : κ) (entries : List (κ × α)) :
    lookupEntry j (entries.filter (fun e => e.1 ≠ k)) =
      if j = k then none else lookupEntry j entries := by
  induction entries with
  | nil =>
      simp [lookupEntry]
  | cons e rest ih =>
      by_cases hek : e.1 = k
      · rw [List.filter_cons_of_neg (by simp [hek]), ih]
        by_cases hjk : j = k
        · simp [hjk]
        · have hej : ¬ e.1 = j := fun h => hjk (h ▸ hek)
          simp [hjk, lookupEntry, hej]
      · rw [List.filter_cons_of_pos (by simp [hek])]
        by_cases hjk : j = k
        · subst hjk
          simpa [lookupEntry, hek] using ih
        · by_cases hej : e.1 = j
          · simp [lookupEntry, hej, hjk]
          · simpa [lookupEntry, hej, hjk] using ih

/-- Edit the value under one key, in place. -/
def modifyEntry (k : κ) (f : α → α) : List (κ × α) → List (κ × α) :=
  List.map (fun e => if e.1 = k then (e.1, f e.2) else e)

/-- Editing in place keeps the list of keys. -/
theorem modifyEntry_keys
    (k : κ) (f : α → α) (entries : List (κ × α)) :
    (modifyEntry k f entries).map Prod.fst = entries.map Prod.fst := by
  simp only [modifyEntry, List.map_map]
  apply List.map_congr_left
  intro e _
  by_cases h : e.1 = k <;> simp [h]

/-- Editing in place is seen by a lookup exactly at that key. -/
theorem lookupEntry_modifyEntry
    (k j : κ) (f : α → α) (entries : List (κ × α)) :
    lookupEntry j (modifyEntry k f entries) =
      if j = k then (lookupEntry j entries).map f
      else lookupEntry j entries := by
  induction entries with
  | nil =>
      simp [modifyEntry, lookupEntry]
  | cons e rest ih =>
      simp only [modifyEntry, List.map_cons] at ih ⊢
      by_cases hek : e.1 = k
      · by_cases hjk : j = k
        · simp [lookupEntry, hek, hjk]
        · have hkj : ¬ k = j := fun h => hjk h.symm
          simpa [lookupEntry, hek, hjk, hkj] using ih
      · by_cases hej : e.1 = j
        · have hjk : ¬ j = k := fun h => hek (hej.trans h)
          simp [lookupEntry, hej, hjk]
        · simpa [lookupEntry, hek, hej] using ih

end Entries

section Insertion

variable {κ : Type u} {α : Type v}
variable [LT κ] [DecidableEq κ] [DecidableLT κ]

/-- Put an entry at its place, over an entry with the same key. -/
def setEntry (k : κ) (v : α) : List (κ × α) → List (κ × α)
  | [] => [(k, v)]
  | e :: rest =>
      if e.1 < k then e :: setEntry k v rest
      else if e.1 = k then (k, v) :: rest
      else (k, v) :: e :: rest

/-- Every key after an insertion is the new key or an old one. -/
theorem mem_setEntry_key
    {k j : κ} {v : α} {entries : List (κ × α)}
    (h : j ∈ (setEntry k v entries).map Prod.fst) :
    j = k ∨ j ∈ entries.map Prod.fst := by
  induction entries with
  | nil =>
      simpa [setEntry] using h
  | cons e rest ih =>
      simp only [setEntry] at h
      split_ifs at h with hlt heq
      · rcases List.mem_cons.mp h with rfl | h
        · exact Or.inr (by simp)
        · rcases ih h with h | h
          · exact Or.inl h
          · exact Or.inr (List.mem_cons_of_mem _ h)
      · rcases List.mem_cons.mp h with rfl | h
        · exact Or.inl rfl
        · exact Or.inr (List.mem_cons_of_mem _ h)
      · rcases List.mem_cons.mp h with rfl | h
        · exact Or.inl rfl
        · exact Or.inr h

/-- Inserting an absent key adds exactly that entry. -/
theorem setEntry_perm
    {k : κ} (v : α) {entries : List (κ × α)}
    (h : k ∉ entries.map Prod.fst) :
    (setEntry k v entries).Perm ((k, v) :: entries) := by
  induction entries with
  | nil =>
      simp [setEntry]
  | cons e rest ih =>
      have hek : ¬ e.1 = k := by
        intro hek
        exact h (by simp [hek])
      have hrest : k ∉ rest.map Prod.fst := by
        intro hmem
        exact h (List.mem_cons_of_mem _ hmem)
      simp only [setEntry, hek, if_false]
      split_ifs with hlt
      · exact ((ih hrest).cons e).trans (List.Perm.swap _ _ _)
      · exact List.Perm.refl _

/-- A key above all others goes to the end. -/
theorem setEntry_of_forall_lt
    {k : κ} (v : α) {entries : List (κ × α)}
    (h : ∀ e ∈ entries, e.1 < k) :
    setEntry k v entries = entries ++ [(k, v)] := by
  induction entries with
  | nil =>
      rfl
  | cons e rest ih =>
      have hrest := ih (fun e' he' => h e' (List.mem_cons_of_mem _ he'))
      simp [setEntry, h e List.mem_cons_self, hrest]

end Insertion

section SortedEntries

variable {κ : Type u} {α : Type v}
variable [LT κ] [LE κ] [Std.IsLinearOrder κ] [Std.LawfulOrderLT κ]
variable [DecidableEq κ]

/-- Keys strictly increase along a list of entries. -/
def KeysIncreasing {κ : Type u} {α : Type v} [LT κ]
    (entries : List (κ × α)) : Prop :=
  entries.Pairwise (fun a b => a.1 < b.1)

/-- In a list of increasing keys every entry is found under its key. -/
theorem KeysIncreasing.lookupEntry_of_mem
    {entries : List (κ × α)} (h : KeysIncreasing entries)
    {k : κ} {v : α} (hmem : (k, v) ∈ entries) :
    lookupEntry k entries = some v := by
  induction entries with
  | nil =>
      simp at hmem
  | cons e rest ih =>
      obtain ⟨hhead, htail⟩ := List.pairwise_cons.mp h
      rcases List.mem_cons.mp hmem with rfl | hmem
      · simp [lookupEntry]
      · have hlt : e.1 < k := hhead (k, v) hmem
        have hek : ¬ e.1 = k := by grind
        simp [lookupEntry, hek, ih htail hmem]

omit [Std.IsLinearOrder κ] in
/-- A list of increasing keys has at most one entry for a key. -/
theorem KeysIncreasing.filter_key
    {entries : List (κ × α)} (h : KeysIncreasing entries) (k : κ) :
    entries.filter (fun e => e.1 = k) =
      ((lookupEntry k entries).map (fun v => (k, v))).toList := by
  induction entries with
  | nil =>
      rfl
  | cons e rest ih =>
      obtain ⟨hhead, htail⟩ := List.pairwise_cons.mp h
      by_cases hek : e.1 = k
      · have hrest : rest.filter (fun e' => e'.1 = k) = [] := by
          rw [List.filter_eq_nil_iff]
          intro e' he'
          have hlt := hhead e' he'
          rw [hek] at hlt
          have hne : ¬ e'.1 = k := by
            intro heq
            rw [heq] at hlt
            exact Std.lt_irrefl hlt
          simpa using hne
        have he : e = (k, e.2) := Prod.ext hek rfl
        rw [List.filter_cons_of_pos (by simp [hek]), hrest]
        simp [lookupEntry, hek, ← he]
      · rw [List.filter_cons_of_neg (by simp [hek]), ih htail]
        simp [lookupEntry, hek]

variable [DecidableLT κ]

/-- An insertion keeps the keys increasing. -/
theorem KeysIncreasing.set
    {entries : List (κ × α)} (h : KeysIncreasing entries)
    (k : κ) (v : α) :
    KeysIncreasing (setEntry k v entries) := by
  induction entries with
  | nil =>
      simp [setEntry, KeysIncreasing]
  | cons e rest ih =>
      obtain ⟨hhead, htail⟩ := List.pairwise_cons.mp h
      simp only [setEntry]
      split_ifs with hlt heq
      · refine List.pairwise_cons.mpr ⟨?_, ih htail⟩
        intro b hb
        have hkey : b.1 ∈ (setEntry k v rest).map Prod.fst :=
          List.mem_map_of_mem hb
        rcases mem_setEntry_key hkey with hbk | hbr
        · rw [hbk]
          exact hlt
        · obtain ⟨b', hb', heq⟩ := List.mem_map.mp hbr
          rw [← heq]
          exact hhead b' hb'
      · refine List.pairwise_cons.mpr ⟨?_, htail⟩
        intro b hb
        exact heq ▸ hhead b hb
      · have hke : k < e.1 := by grind
        refine List.pairwise_cons.mpr ⟨?_, h⟩
        intro b hb
        rcases List.mem_cons.mp hb with rfl | hb
        · exact hke
        · have hlt' := hhead b hb
          show k < b.1
          grind

/-- A lookup after an insertion sees the new value at its key only. -/
theorem lookupEntry_setEntry
    (k j : κ) (v : α) (entries : List (κ × α)) :
    lookupEntry j (setEntry k v entries) =
      if j = k then some v else lookupEntry j entries := by
  induction entries with
  | nil =>
      by_cases hjk : j = k
      · simp [setEntry, lookupEntry, hjk]
      · have hkj : ¬ k = j := fun h => hjk h.symm
        simp [setEntry, lookupEntry, hjk, hkj]
  | cons e rest ih =>
      simp only [setEntry]
      split_ifs with hlt heq <;> grind [lookupEntry]

end SortedEntries

/-- A map listed in increasing key order. -/
structure OrderedMap (κ : Type u) (α : Type v) [LT κ] where
  entries : List (κ × α)
  increasing : KeysIncreasing entries

namespace OrderedMap

section Basic

variable {κ : Type u} {α : Type v} [LT κ]

/-- The map without entries. -/
def empty : OrderedMap κ α :=
  ⟨[], List.Pairwise.nil⟩

instance : Inhabited (OrderedMap κ α) :=
  ⟨empty⟩

/-- Keys, in increasing order. -/
def keys (m : OrderedMap κ α) : List κ :=
  m.entries.map Prod.fst

/-- Number of entries. -/
def size (m : OrderedMap κ α) : Nat :=
  m.entries.length

theorem keys_increasing (m : OrderedMap κ α) :
    m.keys.Pairwise (· < ·) :=
  List.pairwise_map.mpr m.increasing

theorem size_eq_keys_length (m : OrderedMap κ α) :
    m.size = m.keys.length := by
  simp [size, keys]

end Basic

section Lookup

variable {κ : Type u} {α : Type v} [LT κ] [DecidableEq κ]

/-- Value stored under a key. -/
def find? (m : OrderedMap κ α) (k : κ) : Option α :=
  lookupEntry k m.entries

/-- Drop the entry of a key. -/
def erase (m : OrderedMap κ α) (k : κ) : OrderedMap κ α :=
  ⟨m.entries.filter (fun e => e.1 ≠ k), m.increasing.filter _⟩

/-- Edit the value under a key, if there is one. -/
def modify (m : OrderedMap κ α) (k : κ) (f : α → α) :
    OrderedMap κ α :=
  ⟨modifyEntry k f m.entries, by
    have hkeys := modifyEntry_keys k f m.entries
    have hinc := m.keys_increasing
    unfold keys at hinc
    rw [← hkeys] at hinc
    exact List.pairwise_map.mp hinc⟩

/-- A key is listed exactly when it has a value. -/
theorem mem_keys_iff (m : OrderedMap κ α) (k : κ) :
    k ∈ m.keys ↔ ∃ v, m.find? k = some v := by
  rw [← Option.isSome_iff_exists, ← not_iff_not,
    Option.not_isSome_iff_eq_none]
  exact (lookupEntry_eq_none_iff k m.entries).symm

/-- An absent key is one without a value. -/
theorem find?_eq_none_iff (m : OrderedMap κ α) (k : κ) :
    m.find? k = none ↔ k ∉ m.keys :=
  lookupEntry_eq_none_iff k m.entries

@[simp] theorem find?_empty (k : κ) :
    (empty : OrderedMap κ α).find? k = none := by
  rfl

theorem find?_erase (m : OrderedMap κ α) (k j : κ) :
    (m.erase k).find? j = if j = k then none else m.find? j :=
  lookupEntry_filter_ne k j m.entries

/-- Dropping an absent key changes nothing. -/
theorem erase_of_find?_none
    {m : OrderedMap κ α} {k : κ} (h : m.find? k = none) :
    m.erase k = m := by
  have hkey := (m.find?_eq_none_iff k).mp h
  have hfilter : m.entries.filter (fun e => e.1 ≠ k) = m.entries := by
    rw [List.filter_eq_self]
    intro e he
    have hne : e.1 ≠ k := by
      rintro rfl
      exact hkey (List.mem_map_of_mem he)
    simpa using hne
  unfold erase
  cases m
  simpa using hfilter

theorem keys_erase (m : OrderedMap κ α) (k : κ) :
    (m.erase k).keys = m.keys.filter (fun j => j ≠ k) := by
  simp only [keys, erase, List.filter_map]
  rfl

theorem find?_modify (m : OrderedMap κ α) (k j : κ) (f : α → α) :
    (m.modify k f).find? j =
      if j = k then (m.find? j).map f else m.find? j :=
  lookupEntry_modifyEntry k j f m.entries

@[simp] theorem keys_modify (m : OrderedMap κ α) (k : κ) (f : α → α) :
    (m.modify k f).keys = m.keys :=
  modifyEntry_keys k f m.entries

end Lookup

section Order

variable {κ : Type u} {α : Type v}
variable [LT κ] [LE κ] [Std.LawfulOrderLT κ]

/-- No key is listed twice. -/
theorem keys_nodup (m : OrderedMap κ α) : m.keys.Nodup := by
  refine m.keys_increasing.imp ?_
  intro a b hlt heq
  subst heq
  exact Std.lt_irrefl hlt

variable [Std.IsLinearOrder κ] [DecidableEq κ]

/-- The entries are exactly what the map finds. -/
theorem mem_entries_iff (m : OrderedMap κ α) (k : κ) (v : α) :
    (k, v) ∈ m.entries ↔ m.find? k = some v :=
  ⟨m.increasing.lookupEntry_of_mem, mem_of_lookupEntry⟩

omit [Std.IsLinearOrder κ] in
/-- The entries of one key are what the map finds there. -/
theorem filter_entries_key (m : OrderedMap κ α) (k : κ) :
    m.entries.filter (fun e => e.1 = k) =
      ((m.find? k).map (fun v => (k, v))).toList :=
  m.increasing.filter_key k

variable [DecidableLT κ]

/-- Store a value, over the one that may be there. -/
def set (m : OrderedMap κ α) (k : κ) (v : α) : OrderedMap κ α :=
  ⟨setEntry k v m.entries, m.increasing.set k v⟩

/-- Store a value unless the key has one. -/
def insertNew (m : OrderedMap κ α) (k : κ) (v : α) : OrderedMap κ α :=
  match m.find? k with
  | some _ => m
  | none => m.set k v

theorem find?_set (m : OrderedMap κ α) (k j : κ) (v : α) :
    (m.set k v).find? j = if j = k then some v else m.find? j :=
  lookupEntry_setEntry k j v m.entries

/-- Storing above all keys adds the entry at the end. -/
theorem entries_set_of_forall_lt
    (m : OrderedMap κ α) {k : κ} (v : α) (h : ∀ j ∈ m.keys, j < k) :
    (m.set k v).entries = m.entries ++ [(k, v)] :=
  setEntry_of_forall_lt v (fun _ he => h _ (List.mem_map_of_mem he))

/-- Storing under an absent key adds that key to the list. -/
theorem keys_set_perm
    (m : OrderedMap κ α) {k : κ} (v : α) (h : k ∉ m.keys) :
    (m.set k v).keys.Perm (k :: m.keys) :=
  (setEntry_perm v h).map Prod.fst

theorem insertNew_of_find?_some
    {m : OrderedMap κ α} {k : κ} {v' : α} (v : α)
    (h : m.find? k = some v') :
    m.insertNew k v = m := by
  simp [insertNew, h]

theorem insertNew_of_find?_none
    {m : OrderedMap κ α} {k : κ} (v : α) (h : m.find? k = none) :
    m.insertNew k v = m.set k v := by
  simp [insertNew, h]

theorem find?_insertNew (m : OrderedMap κ α) (k j : κ) (v : α) :
    (m.insertNew k v).find? j =
      if j = k then some ((m.find? k).getD v) else m.find? j := by
  cases h : m.find? k with
  | none =>
      rw [insertNew_of_find?_none v h, find?_set]
      rfl
  | some v' =>
      rw [insertNew_of_find?_some v h]
      by_cases hjk : j = k
      · subst hjk
        simp [h]
      · simp [hjk]

end Order

section Iteration

variable {κ : Type u} {α : Type v} [LT κ]

/-- Where an iteration over the map begins. -/
def firstKey (m : OrderedMap κ α) : Option κ :=
  m.keys.head?

/-- Where an iteration goes on behind a key. -/
def nextKey [DecidableLT κ] (m : OrderedMap κ α) (k : κ) : Option κ :=
  m.keys.find? (fun j => k < j)

variable [LE κ] [Std.LawfulOrderLT κ]

/-- Maps that find the same values are the same. -/
theorem ext_find? [DecidableEq κ] [Std.IsLinearOrder κ]
    {m m' : OrderedMap κ α} (h : ∀ k, m.find? k = m'.find? k) : m = m' := by
  have hnodup : ∀ n : OrderedMap κ α, n.entries.Nodup := fun n =>
    n.keys_nodup.of_map
  have hperm : m.entries.Perm m'.entries := by
    rw [List.perm_ext_iff_of_nodup (hnodup m) (hnodup m')]
    rintro ⟨k, v⟩
    rw [mem_entries_iff, mem_entries_iff, h k]
  have hentries := hperm.eq_of_pairwise
    (fun a b _ _ hab hba => absurd hab (by grind)) m.increasing m'.increasing
  cases m
  cases m'
  cases hentries
  rfl

end Iteration

section Counting

variable {κ : Type u} {α : Type v} [LT κ]

/-- Number of keys with a property. -/
def countKeys (p : κ → Bool) (m : OrderedMap κ α) : Nat :=
  m.keys.countP p

theorem countKeys_congr
    {p q : κ → Bool} {m : OrderedMap κ α}
    (h : ∀ k ∈ m.keys, p k = q k) :
    m.countKeys p = m.countKeys q :=
  List.countP_congr (fun k hk => by rw [h k hk])

theorem countKeys_le_size (p : κ → Bool) (m : OrderedMap κ α) :
    m.countKeys p ≤ m.size := by
  rw [size_eq_keys_length]
  exact List.countP_le_length

theorem countKeys_eq_size_iff (p : κ → Bool) (m : OrderedMap κ α) :
    m.countKeys p = m.size ↔ ∀ k ∈ m.keys, p k = true := by
  rw [size_eq_keys_length]
  exact List.countP_eq_length

variable [DecidableEq κ]

@[simp] theorem countKeys_modify
    (p : κ → Bool) (m : OrderedMap κ α) (k : κ) (f : α → α) :
    (m.modify k f).countKeys p = m.countKeys p := by
  simp [countKeys]

/-- Dropping a key without the property changes no count. -/
theorem countKeys_erase
    {p : κ → Bool} {k : κ} (m : OrderedMap κ α) (hk : p k = false) :
    (m.erase k).countKeys p = m.countKeys p := by
  unfold countKeys
  rw [keys_erase, List.countP_filter]
  apply List.countP_congr
  intro j _
  by_cases hjk : j = k
  · simp [hjk, hk]
  · simp [hjk]

variable [LE κ] [Std.LawfulOrderLT κ]

/-- One more key has the property. -/
theorem countKeys_succ
    {p q : κ → Bool} {k : κ} {m : OrderedMap κ α}
    (hmem : k ∈ m.keys) (hp : p k = false) (hq : q k = true)
    (hother : ∀ j ∈ m.keys, j ≠ k → q j = p j) :
    m.countKeys q = m.countKeys p + 1 := by
  have hperm := List.perm_cons_erase hmem
  have hrest :
      (m.keys.erase k).countP q = (m.keys.erase k).countP p := by
    apply List.countP_congr
    intro j hj
    obtain ⟨hne, hj⟩ := m.keys_nodup.mem_erase_iff.mp hj
    rw [hother j hj hne]
  unfold countKeys
  rw [hperm.countP_eq q, hperm.countP_eq p, List.countP_cons_of_pos hq,
    List.countP_cons_of_neg (by simp [hp]), hrest]

omit [DecidableEq κ] in
/-- A map has at most as many entries as there are keys. -/
theorem size_le_of_injective
    {f : κ → Nat} {bound : Nat} (hinj : Function.Injective f)
    (hbound : ∀ k, f k < bound) (m : OrderedMap κ α) :
    m.size ≤ bound := by
  have hnodup : (m.keys.map f).Nodup := m.keys_nodup.map hinj
  have hsub : m.keys.map f ⊆ List.range bound := by
    intro n hn
    obtain ⟨k, _, rfl⟩ := List.mem_map.mp hn
    exact List.mem_range.mpr (hbound k)
  have hle := (List.subperm_of_subset hnodup hsub).length_le
  simpa [size_eq_keys_length] using hle

variable [Std.IsLinearOrder κ] [DecidableLT κ]

/-- A new key counts if it has the property. -/
theorem countKeys_insertNew
    {p : κ → Bool} {k : κ} {m : OrderedMap κ α} (v : α)
    (h : m.find? k = none) :
    (m.insertNew k v).countKeys p =
      m.countKeys p + if p k then 1 else 0 := by
  have hperm :=
    m.keys_set_perm v ((m.find?_eq_none_iff k).mp h)
  rw [insertNew_of_find?_none v h]
  unfold countKeys
  rw [hperm.countP_eq p, List.countP_cons]

end Counting

section Values

variable {κ : Type u} {α : Type v} [LT κ]

/-- Values, in the order of their keys. -/
def values (m : OrderedMap κ α) : List α :=
  m.entries.map Prod.snd

@[simp] theorem values_empty :
    (empty : OrderedMap κ α).values = [] := by
  rfl

theorem values_length (m : OrderedMap κ α) :
    m.values.length = m.size := by
  simp [values, size]

variable [LE κ] [Std.LawfulOrderLT κ] [Std.IsLinearOrder κ]
variable [DecidableEq κ]

theorem mem_values_iff (m : OrderedMap κ α) (v : α) :
    v ∈ m.values ↔ ∃ k, m.find? k = some v := by
  constructor
  · intro hv
    obtain ⟨⟨k, v'⟩, hmem, rfl⟩ := List.mem_map.mp hv
    exact ⟨k, (m.mem_entries_iff k v').mp hmem⟩
  · rintro ⟨k, hk⟩
    exact List.mem_map.mpr ⟨(k, v), (m.mem_entries_iff k v).mpr hk, rfl⟩

omit [Std.IsLinearOrder κ] in
/-- Dropping a key drops its value. -/
theorem values_perm_erase
    (m : OrderedMap κ α) {k : κ} {v : α} (h : m.find? k = some v) :
    m.values.Perm (v :: (m.erase k).values) := by
  have hsplit := List.filter_append_perm (fun e => e.1 = k) m.entries
  have hkey := m.filter_entries_key k
  rw [h] at hkey
  rw [hkey] at hsplit
  have hvalues := hsplit.map Prod.snd
  simpa [values, erase] using hvalues.symm

variable [DecidableLT κ]

/-- Storing under an absent key adds the value. -/
theorem values_set_perm
    (m : OrderedMap κ α) {k : κ} (v : α) (h : m.find? k = none) :
    (m.set k v).values.Perm (v :: m.values) :=
  (setEntry_perm v ((m.find?_eq_none_iff k).mp h)).map Prod.snd

omit [Std.IsLinearOrder κ] [Std.LawfulOrderLT κ] [LE κ] in
theorem setEntry_subperm (k : κ) (v : α) (entries : List (κ × α)) :
    (setEntry k v entries).Subperm ((k, v) :: entries) := by
  induction entries with
  | nil =>
      exact List.Subperm.refl _
  | cons e rest ih =>
      rw [setEntry]
      split_ifs with hlt heq
      · exact ((List.subperm_cons e).mpr ih).trans
          (List.Perm.swap _ _ _).subperm
      · exact ((List.sublist_cons_self e rest).cons_cons (k, v)).subperm
      · exact List.Subperm.refl _

/-- Storing adds the value and drops at most one. -/
theorem values_set_subperm (m : OrderedMap κ α) (k : κ) (v : α) :
    (m.set k v).values.Subperm (v :: m.values) := by
  obtain ⟨entries, hperm, hsub⟩ := setEntry_subperm k v m.entries
  exact ⟨entries.map Prod.snd, hperm.map _, hsub.map _⟩

omit [DecidableLT κ] in
/-- Editing changes the value of its key and leaves the others. -/
theorem values_modify_perm
    (m : OrderedMap κ α) {k : κ} {v : α} (h : m.find? k = some v)
    (f : α → α) :
    (m.modify k f).values.Perm (f v :: (m.erase k).values) := by
  have hfind : (m.modify k f).find? k = some (f v) := by
    rw [find?_modify, if_pos rfl, h, Option.map_some]
  have herase : (m.modify k f).erase k = m.erase k := by
    apply ext_find?
    intro j
    rw [find?_erase, find?_erase, find?_modify]
    split_ifs with hjk
    · rfl
    · rfl
  rw [← herase]
  exact (m.modify k f).values_perm_erase hfind

end Values

end OrderedMap

end NetEngine
