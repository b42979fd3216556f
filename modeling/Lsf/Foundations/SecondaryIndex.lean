import Mathlib.Data.List.AList
import Mathlib.Data.Nat.Notation
import Mathlib.Tactic.SplitIfs

/-!
# An index beside a table

A table maps keys to values, and an index next to it is to contain a tag for each entry, in any
order. `Exceeds` says how many tags too many it contains. Adding a tag with every insertion and
taking one away with every removal keeps that number, except where an insertion replaces an entry:
the tag of the entry that is replaced stays in the index for good.

## Main definitions

* `Table`, `entryTags` — a finite map, and the tags of its entries
* `Exceeds` — an index that has all tags of a table and some more

## Main results

* `Exceeds.insert_of_notMem`, `Exceeds.insert_of_lookup`, `Exceeds.erase`
* `Exceeds.perm_iff` — the index is right if and only if nothing is too much
-/

namespace Lsf

variable {κ ν ρ : Type}

/-- A finite map from keys to values. -/
abbrev Table (κ ν : Type) := AList fun _ : κ => ν

/-- The tags of all entries of a table. -/
def entryTags (tag : κ → ν → ρ) (t : Table κ ν) : List ρ := t.entries.map fun e => tag e.1 e.2

/-- The index has a tag for each entry of the table and `n` more. -/
def Exceeds (tag : κ → ν → ρ) (n : ℕ) (index : List ρ) (t : Table κ ν) : Prop :=
  ∃ extra : List ρ, extra.length = n ∧ index.Perm (entryTags tag t ++ extra)

variable {tag : κ → ν → ρ} {t : Table κ ν} {a : κ} {b : ν} {n : ℕ} {index : List ρ}

theorem exceeds_zero : Exceeds tag 0 (entryTags tag t) t :=
  ⟨[], rfl, by rw [List.append_nil]⟩

/-- The index consists of the tags of the entries if and only if there are none too many. -/
theorem Exceeds.perm_iff (h : Exceeds tag n index t) :
    index.Perm (entryTags tag t) ↔ n = 0 := by
  obtain ⟨extra, rfl, hperm⟩ := h
  constructor
  · intro hexact
    have hlen := (hperm.symm.trans hexact).length_eq
    rw [List.length_append] at hlen
    omega
  · intro hnil
    rwa [List.length_eq_zero_iff.mp hnil, List.append_nil] at hperm

/-! ### Insertion and removal -/

variable [DecidableEq κ]

theorem entryTags_insert :
    entryTags tag (t.insert a b) = tag a b :: entryTags tag (t.erase a) := rfl

theorem Table.erase_of_notMem (h : a ∉ t) : t.erase a = t :=
  AList.ext (List.kerase_of_notMem_keys h)

/-- The tag of an entry and those of the other entries. -/
theorem entryTags_perm (h : t.lookup a = some b) :
    (entryTags tag t).Perm (tag a b :: entryTags tag (t.erase a)) := by
  obtain ⟨b', l₁, l₂, hnot, heq, herase⟩ :=
    List.exists_of_kerase (AList.lookup_isSome.mp (by rw [h]; rfl))
  have hb : b' = b := by
    have hlookup : t.entries.dlookup a = some b := h
    rw [heq, List.dlookup_append, List.dlookup_eq_none.mpr hnot, Option.none_or,
      List.dlookup_cons_eq] at hlookup
    exact Option.some.inj hlookup
  subst hb
  show (t.entries.map _).Perm (tag a b' :: (List.kerase a t.entries).map _)
  rw [herase, heq, List.map_append, List.map_cons, List.map_append]
  exact List.perm_middle

namespace Table

theorem lookup_insert (t : Table κ ν) (a a' : κ) (b : ν) :
    (t.insert a b).lookup a' = if a' = a then some b else t.lookup a' := by
  split_ifs with h
  · rw [h, AList.lookup_insert]
  · exact AList.lookup_insert_ne h

theorem lookup_erase (t : Table κ ν) (a a' : κ) :
    (t.erase a).lookup a' = if a' = a then none else t.lookup a' := by
  split_ifs with h
  · rw [h, AList.lookup_erase]
  · exact AList.lookup_erase_ne h

/-- A change of the value of a key, if there is one. -/
def modify (a : κ) (f : ν → ν) (t : Table κ ν) : Table κ ν :=
  match t.lookup a with
  | none => t
  | some b => t.insert a (f b)

theorem lookup_modify (t : Table κ ν) (a a' : κ) (f : ν → ν) :
    (modify a f t).lookup a' = if a' = a then (t.lookup a).map f else t.lookup a' := by
  rw [modify]
  cases hlookup : t.lookup a with
  | none =>
    split_ifs with h
    · rw [h, hlookup, Option.map_none]
    · rfl
  | some b => exact lookup_insert t a a' (f b)

/-- A table that is put together again from its values has the entries that it had. -/
theorem lookup_foldl_insert {getKey : ν → κ} (hkey : ∀ a b, t.lookup a = some b → getKey b = a)
    (a : κ) : ((t.entries.map fun e => e.2).foldl (fun t b => t.insert (getKey b) b)
      (∅ : Table κ ν)).lookup a = t.lookup a := by
  have hlist : ∀ (l : List (Sigma fun _ : κ => ν)) (t₀ : Table κ ν), l.NodupKeys →
      (∀ e ∈ l, getKey e.2 = e.1) →
      ((l.map fun e => e.2).foldl (fun t b => t.insert (getKey b) b) t₀).lookup a =
        (l.dlookup a).or (t₀.lookup a) := by
    intro l
    induction l with
    | nil => exact fun t₀ _ _ => (Option.none_or).symm
    | cons e l ih =>
      intro t₀ hnodup hl
      rw [List.nodupKeys_cons] at hnodup
      rw [List.map_cons, List.foldl_cons,
        ih _ hnodup.2 fun e' he' => hl e' (List.mem_cons_of_mem _ he'),
        hl e List.mem_cons_self, lookup_insert]
      obtain ⟨a', b⟩ := e
      split_ifs with h
      · subst h
        rw [List.dlookup_cons_eq, List.dlookup_eq_none.mpr hnodup.1]
        rfl
      · rw [List.dlookup_cons_ne _ _ h]
  rw [hlist t.entries ∅ t.nodupKeys fun e he => hkey e.1 e.2 (AList.mem_lookup_iff.mpr he),
    AList.lookup_empty, Option.or_none]
  rfl

end Table

theorem mem_entryTags {x : ρ} :
    x ∈ entryTags tag t ↔ ∃ a b, t.lookup a = some b ∧ tag a b = x := by
  rw [entryTags, List.mem_map]
  constructor
  · rintro ⟨⟨a, b⟩, he, rfl⟩
    exact ⟨a, b, AList.mem_lookup_iff.mpr he, rfl⟩
  · rintro ⟨a, b, hlookup, rfl⟩
    exact ⟨⟨a, b⟩, AList.mem_lookup_iff.mp hlookup, rfl⟩

theorem entryTags_insert_of_notMem (ha : a ∉ t) :
    entryTags tag (t.insert a b) = tag a b :: entryTags tag t := by
  rw [entryTags_insert, Table.erase_of_notMem ha]

/-- An entry is replaced by one with the same tag. -/
theorem entryTags_insert_perm {b' : ν} (h : t.lookup a = some b) (htag : tag a b' = tag a b) :
    (entryTags tag (t.insert a b')).Perm (entryTags tag t) := by
  rw [entryTags_insert, htag]
  exact (entryTags_perm h).symm

theorem entryTags_modify_perm {f : ν → ν} (htag : ∀ b, tag a (f b) = tag a b) :
    (entryTags tag (Table.modify a f t)).Perm (entryTags tag t) := by
  rw [Table.modify]
  cases hlookup : t.lookup a with
  | none => exact List.Perm.refl _
  | some b => exact entryTags_insert_perm hlookup (htag b)

/-! ### Sizes and values -/

namespace Table

theorem length_insert_of_notMem (ha : a ∉ t) :
    (t.insert a b).entries.length = t.entries.length + 1 := by
  have htags : entryTags (fun _ _ => ()) (t.insert a b) = () :: entryTags (fun _ _ => ()) t :=
    entryTags_insert_of_notMem ha
  simpa [entryTags] using congrArg List.length htags

theorem length_erase_le (t : Table κ ν) (a : κ) : (t.erase a).entries.length ≤ t.entries.length :=
  (List.kerase_sublist a t.entries).length_le

theorem length_modify (t : Table κ ν) (a : κ) (f : ν → ν) :
    (modify a f t).entries.length = t.entries.length := by
  have hperm : (entryTags (fun _ _ => ()) (modify a f t)).Perm (entryTags (fun _ _ => ()) t) :=
    entryTags_modify_perm fun _ => rfl
  simpa [entryTags] using hperm.length_eq

theorem length_foldl_insert_le (getKey : ν → κ) (xs : List ν) (t : Table κ ν) :
    (xs.foldl (fun t x => t.insert (getKey x) x) t).entries.length ≤
      t.entries.length + xs.length := by
  induction xs generalizing t with
  | nil => exact le_rfl
  | cons x xs ih =>
    have hlen := length_erase_le t (getKey x)
    have hinsert : (t.insert (getKey x) x).entries.length =
        (t.erase (getKey x)).entries.length + 1 := List.length_cons
    have hrest := ih (t.insert (getKey x) x)
    rw [List.foldl_cons, List.length_cons]
    omega

/-- Every value of a table is changed. -/
def mapValues {ν' : Type} (f : ν → ν') (t : Table κ ν) : Table κ ν' where
  entries := t.entries.map fun e => ⟨e.1, f e.2⟩
  nodupKeys := by
    have hkeys : (t.entries.map fun e => (⟨e.1, f e.2⟩ : Sigma fun _ : κ => ν')).keys =
        t.entries.keys := by simp [List.keys]
    rw [List.NodupKeys, hkeys]
    exact t.nodupKeys

theorem lookup_mapValues {ν' : Type} (f : ν → ν') (t : Table κ ν) (a : κ) :
    (mapValues f t).lookup a = (t.lookup a).map f := by
  have hlist : ∀ l : List (Sigma fun _ : κ => ν),
      (l.map fun e => (⟨e.1, f e.2⟩ : Sigma fun _ : κ => ν')).dlookup a = (l.dlookup a).map f := by
    intro l
    induction l with
    | nil => rfl
    | cons e l ih =>
      obtain ⟨a', b⟩ := e
      rcases eq_or_ne a a' with rfl | hne
      · simp
      · rw [List.map_cons, List.dlookup_cons_ne _ _ hne, List.dlookup_cons_ne _ _ hne, ih]
  exact hlist t.entries

end Table

namespace Exceeds

theorem insert_of_notMem (h : Exceeds tag n index t) (ha : a ∉ t) :
    Exceeds tag n (index ++ [tag a b]) (t.insert a b) := by
  obtain ⟨extra, hlen, hperm⟩ := h
  refine ⟨extra, hlen, ?_⟩
  rw [entryTags_insert_of_notMem ha]
  exact (List.perm_append_singleton _ _).trans (hperm.cons _)

/-- The tag of the entry that is replaced becomes one too many. -/
theorem insert_of_lookup {b' : ν} (h : Exceeds tag n index t) (ha : t.lookup a = some b') :
    Exceeds tag (n + 1) (index ++ [tag a b]) (t.insert a b) := by
  obtain ⟨extra, hlen, hperm⟩ := h
  refine ⟨tag a b' :: extra, by rw [List.length_cons, hlen], ?_⟩
  rw [entryTags_insert]
  calc (index ++ [tag a b]).Perm (tag a b :: index) := List.perm_append_singleton _ _
    _ |>.Perm (tag a b :: (entryTags tag t ++ extra)) := hperm.cons _
    _ |>.Perm (tag a b :: ((tag a b' :: entryTags tag (t.erase a)) ++ extra)) :=
      ((entryTags_perm ha).append_right _).cons _
    _ |>.Perm (tag a b :: (entryTags tag (t.erase a) ++ tag a b' :: extra)) :=
      List.perm_middle.symm.cons _

theorem erase [BEq ρ] [LawfulBEq ρ] (h : Exceeds tag n index t) (ha : t.lookup a = some b) :
    Exceeds tag n (index.erase (tag a b)) (t.erase a) := by
  obtain ⟨extra, hlen, hperm⟩ := h
  refine ⟨extra, hlen, ?_⟩
  have hcons := hperm.trans ((entryTags_perm ha).append_right extra)
  have herase := hcons.erase (tag a b)
  rwa [List.cons_append, List.erase_cons_head] at herase

end Exceeds

end Lsf
