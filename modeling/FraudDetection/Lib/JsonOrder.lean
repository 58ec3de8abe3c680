import FraudDetection.Lib.JsonText
import FraudDetection.Lib.Jsonb

/-!
# JSON values up to the order of their keys

A decoded object has distinct keys, and what it holds does not depend on their order. Here: two values differ in nothing but the
order of keys exactly when sorting the keys makes them equal, and what can be read of a value through its keys is then the same.
-/

namespace Json

mutual

/-- Every object in a value has distinct keys, as a decoded one has. -/
def DistinctKeys : Json → Prop
  | .arr items => DistinctKeysItems items
  | .obj entries => (entries.map (·.1)).Nodup ∧ DistinctKeysEntries entries
  | _ => True

def DistinctKeysItems : List Json → Prop
  | [] => True
  | item :: items => DistinctKeys item ∧ DistinctKeysItems items

def DistinctKeysEntries : List (String × Json) → Prop
  | [] => True
  | (_, item) :: entries => DistinctKeys item ∧ DistinctKeysEntries entries

end

mutual

/-- Two values differ in nothing but the order of object keys. -/
def Same : Json → Json → Prop
  | .arr xs, .arr ys => SameItems xs ys
  | .obj xs, .obj ys => xs.length = ys.length ∧ SameEntries xs ys
  | a, b => a = b

def SameItems : List Json → List Json → Prop
  | [], ys => ys = []
  | x :: xs, ys => ∃ y ys', ys = y :: ys' ∧ Same x y ∧ SameItems xs ys'

/-- Every entry is there under its key. -/
def SameEntries : List (String × Json) → List (String × Json) → Prop
  | [], _ => True
  | (key, x) :: xs, ys => (∃ y, lookup ys key = some y ∧ Same x y) ∧ SameEntries xs ys

end

/-! ## Sorted entries -/

theorem distinctKeys_of_mem {entries : List (String × Json)} (h : DistinctKeysEntries entries) {key : String} {value : Json}
    (hm : (key, value) ∈ entries) : DistinctKeys value := by
  induction entries with
  | nil => cases hm
  | cons entry entries ih =>
    rcases List.mem_cons.mp hm with rfl | hm
    · exact h.1
    · exact ih h.2 hm

theorem mem_of_lookup {entries : List (String × Json)} {key : String} {value : Json} (h : lookup entries key = some value) :
    (key, value) ∈ entries := by
  obtain ⟨⟨k, v⟩, hf, rfl⟩ := Option.map_eq_some_iff.mp h
  have hk := List.find?_some hf
  rw [beq_iff_eq] at hk
  exact hk ▸ List.mem_of_find?_eq_some hf

/-- Distinct keys: what is there under a key is what is found. -/
theorem lookup_of_mem {entries : List (String × Json)} (hd : (entries.map (·.1)).Nodup) {key : String} {value : Json}
    (h : (key, value) ∈ entries) : lookup entries key = some value := by
  induction entries with
  | nil => cases h
  | cons entry entries ih =>
    obtain ⟨k, v⟩ := entry
    rw [List.map_cons, List.nodup_cons] at hd
    rw [lookup_cons]
    rcases List.mem_cons.mp h with h | h
    · cases h
      rw [if_pos rfl]
    · have hk : k ≠ key := by
        rintro rfl
        exact hd.1 (List.mem_map.mpr ⟨_, h, rfl⟩)
      rw [if_neg hk, ih hd.2 h]

theorem sortEntries_eq_map (entries : List (String × Json)) :
    sortEntries entries = entries.map fun entry => (entry.1, sortKeys entry.2) := by
  induction entries with
  | nil => rfl
  | cons entry entries ih => rw [sortEntries, ih, List.map_cons]

theorem sortItems_eq_map (items : List Json) : sortItems items = items.map sortKeys := by
  induction items with
  | nil => rfl
  | cons item items ih => rw [sortItems, ih, List.map_cons]

theorem keys_sortEntries (entries : List (String × Json)) : (sortEntries entries).map (·.1) = entries.map (·.1) := by
  rw [sortEntries_eq_map, List.map_map]
  rfl

/-- Entries in the order of their keys. -/
def ordered (entries : List (String × Json)) : List (String × Json) := entries.insertionSort fun a b => a.1 ≤ b.1

theorem ordered_perm (entries : List (String × Json)) : (ordered entries).Perm entries := List.perm_insertionSort _ _

/-- With distinct keys there is one order. -/
theorem ordered_eq_iff {xs ys : List (String × Json)} (hx : (xs.map (·.1)).Nodup) : ordered xs = ordered ys ↔ xs.Perm ys := by
  constructor
  · intro h
    exact (ordered_perm xs).symm.trans (h ▸ ordered_perm ys)
  · intro h
    have hle : ∀ entries : List (String × Json), (ordered entries).Pairwise fun a b => a.1 ≤ b.1 := fun entries =>
      List.pairwise_insertionSort (r := fun a b : String × Json => a.1 ≤ b.1) entries
    refine List.Perm.eq_of_pairwise ?_ (hle xs) (hle ys) (((ordered_perm xs).trans h).trans (ordered_perm ys).symm)
    intro a b ha hb hab hba
    have hkey : a.1 = b.1 := le_antisymm hab hba
    have ha := (ordered_perm xs).mem_iff.mp ha
    have hb := h.mem_iff.mpr ((ordered_perm ys).mem_iff.mp hb)
    have hfind := @lookup_of_mem xs hx a.1 a.2 ha
    rw [hkey, @lookup_of_mem xs hx b.1 b.2 hb, Option.some.injEq] at hfind
    exact Prod.ext hkey hfind.symm

/-- With distinct keys, entries are a permutation of others when there are as many and each is among them. -/
theorem perm_iff_subset {xs ys : List (String × Json)} (hx : (xs.map (·.1)).Nodup) :
    xs.Perm ys ↔ xs.length = ys.length ∧ ∀ entry ∈ xs, entry ∈ ys := by
  constructor
  · intro h
    exact ⟨h.length_eq, fun entry he => h.mem_iff.mp he⟩
  · rintro ⟨hlen, hsub⟩
    exact ((List.Nodup.of_map _ hx).subperm hsub).perm_of_length_le (le_of_eq hlen.symm)

/-! ## The same up to order, and sorted -/

/-- An entry of sorted values is the one found under its key, its value sorted. -/
theorem mem_sortEntries_iff {ys : List (String × Json)} (hd : (ys.map (·.1)).Nodup) {key : String} {v : Json} :
    (key, v) ∈ sortEntries ys ↔ ∃ y, lookup ys key = some y ∧ y.sortKeys = v := by
  rw [sortEntries_eq_map, List.mem_map]
  constructor
  · rintro ⟨⟨k, y⟩, hm, h⟩
    cases h
    exact ⟨y, lookup_of_mem hd hm, rfl⟩
  · rintro ⟨y, hl, rfl⟩
    exact ⟨(key, y), mem_of_lookup hl, rfl⟩

mutual

/-- Two values are the same up to the order of their keys exactly when they are equal once sorted. -/
theorem sortKeys_eq_iff : ∀ {a b : Json}, DistinctKeys a → DistinctKeys b → (sortKeys a = sortKeys b ↔ Same a b)
  | .arr xs, .arr ys, ha, hb => by
    rw [sortKeys, sortKeys, Json.arr.injEq, sortItems_eq_iff ha hb]
    rfl
  | .obj xs, .obj ys, ha, hb => by
    have hnodup : ((sortEntries xs).map (·.1)).Nodup := by
      rw [keys_sortEntries]
      exact ha.1
    have hlen : (sortEntries xs).length = (sortEntries ys).length ↔ xs.length = ys.length := by
      rw [sortEntries_eq_map, sortEntries_eq_map, List.length_map, List.length_map]
    rw [sortKeys, sortKeys, Json.obj.injEq]
    change ordered (sortEntries xs) = ordered (sortEntries ys) ↔ xs.length = ys.length ∧ SameEntries xs ys
    rw [ordered_eq_iff hnodup, perm_iff_subset hnodup, hlen, subset_sortEntries_iff ha.2 hb.1 hb.2]
  | .arr xs, .obj _, _, _ | .arr xs, .null, _, _ | .arr xs, .bool _, _, _ | .arr xs, .int _, _, _ | .arr xs, .float _, _, _
  | .arr xs, .str _, _, _ | .arr xs, .lone _, _, _ => by simp [sortKeys, Same]
  | .obj _, .arr _, _, _ | .obj _, .null, _, _ | .obj _, .bool _, _, _ | .obj _, .int _, _, _ | .obj _, .float _, _, _
  | .obj _, .str _, _, _ | .obj _, .lone _, _, _ => by simp [sortKeys, Same]
  | .null, b, _, _ => by cases b <;> simp [sortKeys, Same]
  | .bool _, b, _, _ => by cases b <;> simp [sortKeys, Same]
  | .int _, b, _, _ => by cases b <;> simp [sortKeys, Same]
  | .float _, b, _, _ => by cases b <;> simp [sortKeys, Same]
  | .str _, b, _, _ => by cases b <;> simp [sortKeys, Same]
  | .lone _, b, _, _ => by cases b <;> simp [sortKeys, Same]

theorem sortItems_eq_iff : ∀ {xs ys : List Json}, DistinctKeysItems xs → DistinctKeysItems ys →
    (sortItems xs = sortItems ys ↔ SameItems xs ys)
  | [], ys, _, _ => by cases ys <;> simp [sortItems, SameItems]
  | x :: xs, [], _, _ => by simp [sortItems, SameItems]
  | x :: xs, y :: ys, ha, hb => by
    rw [sortItems, sortItems, List.cons.injEq, sortKeys_eq_iff ha.1 hb.1, sortItems_eq_iff ha.2 hb.2]
    constructor
    · rintro ⟨hx, hxs⟩
      exact ⟨y, ys, rfl, hx, hxs⟩
    · rintro ⟨_, _, h, hx, hxs⟩
      cases h
      exact ⟨hx, hxs⟩

theorem subset_sortEntries_iff : ∀ {xs ys : List (String × Json)}, DistinctKeysEntries xs → (ys.map (·.1)).Nodup →
    DistinctKeysEntries ys → ((∀ entry ∈ sortEntries xs, entry ∈ sortEntries ys) ↔ SameEntries xs ys)
  | [], ys, _, _, _ => by simp [sortEntries, SameEntries]
  | (key, x) :: xs, ys, ha, hd, hb => by
    have hx : (key, x.sortKeys) ∈ sortEntries ys ↔ ∃ y, lookup ys key = some y ∧ Same x y := by
      rw [mem_sortEntries_iff hd]
      constructor
      · rintro ⟨y, hl, h⟩
        exact ⟨y, hl, (sortKeys_eq_iff ha.1 (distinctKeys_of_mem hb (mem_of_lookup hl))).mp h.symm⟩
      · rintro ⟨y, hl, h⟩
        exact ⟨y, hl, ((sortKeys_eq_iff ha.1 (distinctKeys_of_mem hb (mem_of_lookup hl))).mpr h).symm⟩
    rw [sortEntries, List.forall_mem_cons, hx, subset_sortEntries_iff ha.2 hd hb]
    rfl

end

/-! ## Reading a value through its keys -/

/-- An object is the same up to order only as an object, with the same value, up to order, under every key. -/
theorem lookup_congr {xs : List (String × Json)} {b : Json} (hx : DistinctKeys (.obj xs)) (hb : DistinctKeys b)
    (h : sortKeys (.obj xs) = sortKeys b) :
    ∃ ys, b = .obj ys ∧ (xs.map (·.1)).Perm (ys.map (·.1)) ∧
      ∀ key, (lookup xs key).map sortKeys = (lookup ys key).map sortKeys := by
  cases b with
  | obj ys =>
    have hnodup : ((sortEntries xs).map (·.1)).Nodup := by
      rw [keys_sortEntries]
      exact hx.1
    rw [sortKeys, sortKeys, Json.obj.injEq] at h
    have hperm : (sortEntries xs).Perm (sortEntries ys) := (ordered_eq_iff hnodup).mp h
    have hkeys := hperm.map (·.1)
    rw [keys_sortEntries, keys_sortEntries] at hkeys
    refine ⟨ys, rfl, hkeys, fun key => Option.ext fun v => ?_⟩
    have hmem : (key, v) ∈ sortEntries xs ↔ (key, v) ∈ sortEntries ys := hperm.mem_iff
    rw [mem_sortEntries_iff hx.1, mem_sortEntries_iff hb.1] at hmem
    rw [Option.map_eq_some_iff, Option.map_eq_some_iff]
    exact hmem
  | _ => simp [sortKeys] at h

/-- Objects with the same value, up to order, under every key are the same up to order. -/
theorem sortKeys_of_lookup {xs ys : List (String × Json)} (hx : (xs.map (·.1)).Nodup) (hy : (ys.map (·.1)).Nodup)
    (h : ∀ key, (lookup xs key).map sortKeys = (lookup ys key).map sortKeys) : sortKeys (.obj xs) = sortKeys (.obj ys) := by
  have hx' : ((sortEntries xs).map (·.1)).Nodup := by
    rw [keys_sortEntries]
    exact hx
  have hy' : ((sortEntries ys).map (·.1)).Nodup := by
    rw [keys_sortEntries]
    exact hy
  rw [sortKeys, sortKeys, Json.obj.injEq]
  refine (ordered_eq_iff hx').mpr ((List.perm_ext_iff_of_nodup (hx'.of_map _) (hy'.of_map _)).mpr ?_)
  rintro ⟨key, v⟩
  rw [mem_sortEntries_iff hx, mem_sortEntries_iff hy, ← Option.map_eq_some_iff, ← Option.map_eq_some_iff, h key]

theorem sortItems_eq_iff_forall₂ (xs ys : List Json) :
    sortKeys (.arr xs) = sortKeys (.arr ys) ↔ List.Forall₂ (fun x y => sortKeys x = sortKeys y) xs ys := by
  rw [sortKeys, sortKeys, Json.arr.injEq, sortItems_eq_map, sortItems_eq_map]
  have hf : List.Forall₂ (fun a b => a = b) (xs.map sortKeys) (ys.map sortKeys) ↔ xs.map sortKeys = ys.map sortKeys := by
    rw [List.forall₂_eq_eq_eq]
  rw [← hf, List.forall₂_map_left_iff, List.forall₂_map_right_iff]

/-- A list is the same up to order only as a list, item by item. -/
theorem items_congr {xs : List Json} {b : Json} (h : sortKeys (.arr xs) = sortKeys b) :
    ∃ ys, b = .arr ys ∧ List.Forall₂ (fun x y => sortKeys x = sortKeys y) xs ys := by
  cases b with
  | arr ys => exact ⟨ys, rfl, (sortItems_eq_iff_forall₂ xs ys).mp h⟩
  | _ => simp [sortKeys] at h

mutual

/-- Sorting the keys of a value that has one key in every object changes nothing. -/
theorem sortKeys_fixed : ∀ a : Json, SingleKeys (sortKeys a) → sortKeys a = a
  | .arr items, h => by
    rw [sortKeys] at h ⊢
    rw [sortItems_fixed items h]
  | .obj entries, h => by
    rw [sortKeys] at h ⊢
    obtain ⟨hlen, hsingle⟩ := h
    rw [List.length_insertionSort, sortEntries_eq_map, List.length_map] at hlen
    match entries, hlen with
    | [(key, value)], _ => rw [sortEntries, sortEntries, List.insertionSort, List.foldr, sortKeys_fixed value hsingle.1]; rfl
  | .null, _ => rfl
  | .bool _, _ => rfl
  | .int _, _ => rfl
  | .float _, _ => rfl
  | .str _, _ => rfl
  | .lone _, _ => rfl

theorem sortItems_fixed : ∀ items : List Json, SingleKeysItems (sortItems items) → sortItems items = items
  | [], _ => rfl
  | item :: items, h => by
    rw [sortItems, sortKeys_fixed item h.1, sortItems_fixed items h.2]

end

/-- A value with one key in every object is the same up to order as no other. -/
theorem eq_of_single {a b : Json} (ha : SingleKeys a) (h : sortKeys a = sortKeys b) : a = b := by
  have hb : SingleKeys (sortKeys b) := by
    rw [← h, sortKeys_of_single a ha]
    exact ha
  rw [← sortKeys_of_single a ha, h, sortKeys_fixed b hb]

end Json
