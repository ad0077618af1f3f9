import Mathlib

/-!
Finite maps whose values know their own key, kept as the list of values in
strictly ascending key order. The order is a field, so a map has exactly one
representation and two maps with the same values are equal: what a map lists is
a function of what it holds.
-/

/-- A finite map from keys to the values carrying them. -/
@[ext] structure KeyedMap {α κ : Type*} [LinearOrder κ] (key : α → κ) where
  toList : List α
  sorted : toList.Pairwise (fun a b => key a < key b)

namespace KeyedMap

variable {α κ : Type*} [LinearOrder κ] {key : α → κ}

instance : Membership α (KeyedMap key) := ⟨fun m a => a ∈ m.toList⟩

theorem mem_def {m : KeyedMap key} {a : α} : a ∈ m ↔ a ∈ m.toList := Iff.rfl

theorem nodup_keys (m : KeyedMap key) : (m.toList.map key).Nodup :=
  List.pairwise_map.mpr (m.sorted.imp fun h => ne_of_lt h)

theorem nodup (m : KeyedMap key) : m.toList.Nodup := m.nodup_keys.of_map

theorem eq_of_key_eq {m : KeyedMap key} {a b : α} (ha : a ∈ m) (hb : b ∈ m)
    (h : key a = key b) : a = b :=
  List.inj_on_of_nodup_map m.nodup_keys ha hb h

/-- A map is determined by the values it holds. -/
theorem ext_mem {m m' : KeyedMap key} (h : ∀ a, a ∈ m ↔ a ∈ m') : m = m' := by
  have hperm : m.toList.Perm m'.toList :=
    (List.perm_ext_iff_of_nodup m.nodup m'.nodup).mpr h
  exact KeyedMap.ext (hperm.eq_of_pairwise
    (fun a b _ _ hab hba => absurd (hab.trans hba) (lt_irrefl _)) m.sorted m'.sorted)

def empty : KeyedMap key := ⟨[], List.Pairwise.nil⟩

@[simp] theorem not_mem_empty (a : α) : a ∉ (empty : KeyedMap key) := by
  simp [empty, mem_def]

/-! ### Reading -/

/-- The value stored under `k`. -/
def lookup (m : KeyedMap key) (k : κ) : Option α := m.toList.find? (fun a => key a = k)

@[simp] theorem lookup_empty (k : κ) : (empty : KeyedMap key).lookup k = none := rfl

theorem lookup_eq_some_iff {m : KeyedMap key} {k : κ} {a : α} :
    m.lookup k = some a ↔ a ∈ m ∧ key a = k := by
  constructor
  · intro h
    exact ⟨List.mem_of_find?_eq_some h, by simpa using List.find?_some h⟩
  · rintro ⟨hmem, rfl⟩
    cases h : m.lookup (key a) with
    | none => simpa using List.find?_eq_none.mp h a hmem
    | some b =>
        have hb : b ∈ m := List.mem_of_find?_eq_some h
        have hkey : key b = key a := by simpa using List.find?_some h
        rw [eq_of_key_eq hb hmem hkey]

theorem lookup_eq_none_iff {m : KeyedMap key} {k : κ} :
    m.lookup k = none ↔ ∀ a ∈ m, key a ≠ k := by
  simp [lookup, mem_def]

theorem key_of_lookup {m : KeyedMap key} {k : κ} {a : α} (h : m.lookup k = some a) :
    key a = k := (lookup_eq_some_iff.mp h).2

/-- A map is determined by its lookups. -/
theorem ext_lookup {m m' : KeyedMap key} (h : ∀ k, m.lookup k = m'.lookup k) : m = m' := by
  apply ext_mem
  intro a
  have hiff (n : KeyedMap key) : a ∈ n ↔ n.lookup (key a) = some a := by
    simp [lookup_eq_some_iff]
  rw [hiff m, hiff m', h]

def contains (m : KeyedMap key) (k : κ) : Bool := (m.lookup k).isSome

theorem contains_iff {m : KeyedMap key} {k : κ} :
    m.contains k = true ↔ ∃ a ∈ m, key a = k := by
  simp [contains, Option.isSome_iff_exists, lookup_eq_some_iff]

/-! ### Writing -/

/-- Put `a` into an ascending list, in place of the value with its key. -/
def insertSorted (key : α → κ) (a : α) : List α → List α
  | [] => [a]
  | b :: l =>
      if key a < key b then a :: b :: l
      else if key a = key b then a :: l
      else b :: insertSorted key a l

theorem mem_insertSorted_imp {a c : α} {l : List α} (h : c ∈ insertSorted key a l) :
    c = a ∨ c ∈ l := by
  induction l with
  | nil => simpa [insertSorted] using h
  | cons b l ih =>
      simp only [insertSorted] at h
      split at h
      · simpa using h
      · split at h
        · rcases List.mem_cons.mp h with rfl | h
          · exact Or.inl rfl
          · exact Or.inr (List.mem_cons_of_mem _ h)
        · rcases List.mem_cons.mp h with rfl | h
          · exact Or.inr List.mem_cons_self
          · exact (ih h).imp_right (List.mem_cons_of_mem _)

theorem pairwise_insertSorted (a : α) {l : List α}
    (h : l.Pairwise (fun a b => key a < key b)) :
    (insertSorted key a l).Pairwise (fun a b => key a < key b) := by
  induction l with
  | nil => simp [insertSorted]
  | cons b l ih =>
      obtain ⟨hb, hl⟩ := List.pairwise_cons.mp h
      simp only [insertSorted]
      split
      · rename_i hlt
        refine List.pairwise_cons.mpr ⟨fun c hc => ?_, h⟩
        rcases List.mem_cons.mp hc with rfl | hc
        · exact hlt
        · exact hlt.trans (hb c hc)
      · rename_i hge
        split
        · rename_i heq
          exact List.pairwise_cons.mpr ⟨fun c hc => heq ▸ hb c hc, hl⟩
        · rename_i hne
          refine List.pairwise_cons.mpr ⟨fun c hc => ?_, ih hl⟩
          rcases mem_insertSorted_imp hc with rfl | hc
          · exact lt_of_le_of_ne (not_lt.mp hge) (Ne.symm hne)
          · exact hb c hc

theorem mem_insertSorted {a c : α} {l : List α}
    (h : l.Pairwise (fun a b => key a < key b)) :
    c ∈ insertSorted key a l ↔ c = a ∨ (c ∈ l ∧ key c ≠ key a) := by
  induction l with
  | nil => simp [insertSorted]
  | cons b l ih =>
      obtain ⟨hb, hl⟩ := List.pairwise_cons.mp h
      simp only [insertSorted]
      split
      · rename_i hlt
        have hne (d : α) (hd : d ∈ b :: l) : key d ≠ key a := by
          rcases List.mem_cons.mp hd with rfl | hd
          · exact ne_of_gt hlt
          · exact ne_of_gt (hlt.trans (hb d hd))
        rw [List.mem_cons]
        exact or_congr_right ⟨fun hc => ⟨hc, hne c hc⟩, And.left⟩
      · split
        · rename_i heq
          have hne (d : α) (hd : d ∈ l) : key d ≠ key a := heq ▸ ne_of_gt (hb d hd)
          rw [List.mem_cons, List.mem_cons]
          refine or_congr_right ⟨fun hc => ⟨Or.inr hc, hne c hc⟩, ?_⟩
          rintro ⟨rfl | hc, hkey⟩
          · exact absurd heq.symm hkey
          · exact hc
        · rename_i hne
          rw [List.mem_cons, ih hl, List.mem_cons]
          constructor
          · rintro (rfl | rfl | ⟨hc, hkey⟩)
            · exact Or.inr ⟨Or.inl rfl, Ne.symm hne⟩
            · exact Or.inl rfl
            · exact Or.inr ⟨Or.inr hc, hkey⟩
          · rintro (rfl | ⟨rfl | hc, hkey⟩)
            · exact Or.inr (Or.inl rfl)
            · exact Or.inl rfl
            · exact Or.inr (Or.inr ⟨hc, hkey⟩)

/-- Store `a` under its key, replacing what was there. -/
def insert (m : KeyedMap key) (a : α) : KeyedMap key :=
  ⟨insertSorted key a m.toList, pairwise_insertSorted a m.sorted⟩

@[simp] theorem mem_insert {m : KeyedMap key} {a c : α} :
    c ∈ m.insert a ↔ c = a ∨ (c ∈ m ∧ key c ≠ key a) := mem_insertSorted m.sorted

/-- Remove the value stored under `k`. -/
def erase (m : KeyedMap key) (k : κ) : KeyedMap key :=
  ⟨m.toList.filter (fun a => key a ≠ k), m.sorted.filter _⟩

@[simp] theorem mem_erase {m : KeyedMap key} {k : κ} {c : α} :
    c ∈ m.erase k ↔ c ∈ m ∧ key c ≠ k := by
  simp [erase, mem_def]

theorem lookup_insert (m : KeyedMap key) (a : α) (k : κ) :
    (m.insert a).lookup k = if k = key a then some a else m.lookup k := by
  split
  · rename_i h
    exact lookup_eq_some_iff.mpr ⟨mem_insert.mpr (Or.inl rfl), h.symm⟩
  · rename_i h
    apply Option.ext
    intro c
    rw [lookup_eq_some_iff, lookup_eq_some_iff, mem_insert]
    constructor
    · rintro ⟨rfl | ⟨hc, _⟩, hk⟩
      · exact absurd hk.symm h
      · exact ⟨hc, hk⟩
    · rintro ⟨hc, hk⟩
      exact ⟨Or.inr ⟨hc, fun he => h (hk.symm.trans he)⟩, hk⟩

theorem lookup_erase (m : KeyedMap key) (k k' : κ) :
    (m.erase k).lookup k' = if k' = k then none else m.lookup k' := by
  split
  · rename_i h
    exact lookup_eq_none_iff.mpr fun a ha => h ▸ (mem_erase.mp ha).2
  · rename_i h
    apply Option.ext
    intro c
    rw [lookup_eq_some_iff, lookup_eq_some_iff, mem_erase]
    constructor
    · rintro ⟨⟨hc, _⟩, hk⟩
      exact ⟨hc, hk⟩
    · rintro ⟨hc, hk⟩
      exact ⟨⟨hc, fun he => h (hk.symm.trans he)⟩, hk⟩

/-! ### Maps from lists -/

/-- The map holding the values of a list; of two with one key the later wins. -/
def ofList (l : List α) : KeyedMap key := l.foldl insert empty

theorem mem_foldl_insert {l : List α} (hl : (l.map key).Nodup) {m : KeyedMap key}
    (hm : ∀ a ∈ l, ∀ b ∈ m, key b ≠ key a) {c : α} :
    c ∈ l.foldl insert m ↔ c ∈ m ∨ c ∈ l := by
  induction l generalizing m with
  | nil => simp
  | cons a l ih =>
      rw [List.map_cons, List.nodup_cons] at hl
      have hfresh : ∀ b ∈ l, key b ≠ key a := fun b hb he =>
        hl.1 (he ▸ List.mem_map_of_mem hb)
      rw [List.foldl_cons, ih hl.2]
      · rw [mem_insert, List.mem_cons]
        constructor
        · rintro ((rfl | ⟨hc, _⟩) | hc)
          · exact Or.inr (Or.inl rfl)
          · exact Or.inl hc
          · exact Or.inr (Or.inr hc)
        · rintro (hc | rfl | hc)
          · exact Or.inl (Or.inr ⟨hc, hm a List.mem_cons_self c hc⟩)
          · exact Or.inl (Or.inl rfl)
          · exact Or.inr hc
      · intro b hb d hd
        rcases mem_insert.mp hd with rfl | ⟨hd, _⟩
        · exact Ne.symm (hfresh b hb)
        · exact hm b (List.mem_cons_of_mem _ hb) d hd

/-- With distinct keys, the map of a list holds exactly the list's values. -/
theorem mem_ofList {l : List α} (hl : (l.map key).Nodup) {c : α} :
    c ∈ (ofList l : KeyedMap key) ↔ c ∈ l := by
  rw [ofList, mem_foldl_insert hl (by simp)]
  simp

/-- The listing of a map is the only ascending arrangement of its values. -/
theorem toList_eq_of_perm {m : KeyedMap key} {l : List α} (hperm : l.Perm m.toList)
    (hl : l.Pairwise (fun a b => key a ≤ key b)) : l = m.toList := by
  refine hperm.eq_of_pairwise ?_ hl (m.sorted.imp le_of_lt)
  intro a b ha hb hab hba
  exact eq_of_key_eq (m := m) (hperm.mem_iff.mp ha) hb (le_antisymm hab hba)

end KeyedMap
