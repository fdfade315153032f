/-!
# Ordered tables

A table keeps keyed entries in the order in which their keys first came.  Writing to a key that
is already there keeps its place and replaces its value, so a key never occurs twice.

    (t.insert k v).get? j = if j = k then some v else t.get? j              (get?_insert)
    t.get? k = some v ↔ (k, v) ∈ t.entries                                  (get?_eq_some_iff)
-/

namespace HexRules

/-! ## Entry lists -/

/-- Replace the value of the first entry keyed `k`, or append a new entry. -/
def putEntry {κ β : Type} [DecidableEq κ] (k : κ) (v : β) : List (κ × β) → List (κ × β)
  | [] => [(k, v)]
  | (j, w) :: rest => if j = k then (j, v) :: rest else (j, w) :: putEntry k v rest

/-- The value of the first entry keyed `k`. -/
def findEntry {κ β : Type} [DecidableEq κ] (k : κ) : List (κ × β) → Option β
  | [] => none
  | (j, w) :: rest => if j = k then some w else findEntry k rest

theorem findEntry_putEntry {κ β : Type} [DecidableEq κ] (k j : κ) (v : β) (es : List (κ × β)) :
    findEntry j (putEntry k v es) = if j = k then some v else findEntry j es := by
  induction es with
  | nil => simp [putEntry, findEntry, eq_comm]
  | cons e rest ih =>
    obtain ⟨i, w⟩ := e
    by_cases hi : i = k
    · subst hi
      by_cases hj : j = i
      · simp [putEntry, findEntry, hj]
      · have hij : ¬ i = j := fun h => hj h.symm
        simp [putEntry, findEntry, hj, hij]
    · by_cases hij : i = j
      · subst hij; simp [putEntry, findEntry, hi]
      · simp [putEntry, findEntry, hi, hij, ih]

theorem keys_putEntry {κ β : Type} [DecidableEq κ] (k : κ) (v : β) (es : List (κ × β)) :
    (putEntry k v es).map Prod.fst =
      if k ∈ es.map Prod.fst then es.map Prod.fst else es.map Prod.fst ++ [k] := by
  induction es with
  | nil => simp [putEntry]
  | cons e rest ih =>
    obtain ⟨i, w⟩ := e
    by_cases hi : i = k
    · simp [putEntry, hi]
    · have hk : ¬ k = i := fun h => hi h.symm
      simp only [putEntry, hi, if_false, List.map_cons, ih, List.mem_cons, hk, false_or]
      split <;> simp

theorem nodup_keys_putEntry {κ β : Type} [DecidableEq κ] (k : κ) (v : β) (es : List (κ × β))
    (h : (es.map Prod.fst).Nodup) : ((putEntry k v es).map Prod.fst).Nodup := by
  rw [keys_putEntry]
  split
  · exact h
  · rename_i hk
    refine List.nodup_append.2 ⟨h, by simp, fun a ha b hb => ?_⟩
    rintro rfl
    exact hk ((List.mem_singleton.1 hb) ▸ ha)

theorem findEntry_eq_some_iff {κ β : Type} [DecidableEq κ] (k : κ) (v : β) (es : List (κ × β))
    (h : (es.map Prod.fst).Nodup) : findEntry k es = some v ↔ (k, v) ∈ es := by
  induction es with
  | nil => simp [findEntry]
  | cons e rest ih =>
    obtain ⟨i, w⟩ := e
    obtain ⟨hi, hrest⟩ := List.nodup_cons.1 h
    by_cases hk : i = k
    · subst hk
      have hv : (i, v) ∉ rest := fun hm => hi (List.mem_map.2 ⟨(i, v), hm, rfl⟩)
      simp [findEntry, hv, eq_comm]
    · have hki : ¬ k = i := fun h => hk h.symm
      simp [findEntry, hk, hki, ih hrest]

theorem mem_of_findEntry {κ β : Type} [DecidableEq κ] {k : κ} {v : β} {es : List (κ × β)}
    (h : findEntry k es = some v) : (k, v) ∈ es := by
  induction es with
  | nil => cases h
  | cons e rest ih =>
    rw [findEntry] at h
    split at h
    · rename_i hk
      cases h
      exact hk ▸ List.mem_cons_self
    · exact List.mem_cons_of_mem e (ih h)

theorem isSome_findEntry_iff {κ β : Type} [DecidableEq κ] (k : κ) (es : List (κ × β)) :
    (findEntry k es).isSome = true ↔ k ∈ es.map Prod.fst := by
  induction es with
  | nil => simp [findEntry]
  | cons e rest ih =>
    by_cases h : e.1 = k
    · simp [findEntry, h]
    · simp [findEntry, h, ih, Ne.symm h]

theorem findEntry_map {κ β δ : Type} [DecidableEq κ] (f : β → δ) (k : κ) (es : List (κ × β)) :
    findEntry k (es.map fun e => (e.1, f e.2)) = (findEntry k es).map f := by
  induction es with
  | nil => rfl
  | cons e rest ih =>
    rw [List.map_cons, findEntry, findEntry, ih]
    split <;> rfl

theorem putEntry_of_not_mem {κ β : Type} [DecidableEq κ] {k : κ} {es : List (κ × β)}
    (h : k ∉ es.map Prod.fst) (v : β) : putEntry k v es = es ++ [(k, v)] := by
  induction es with
  | nil => rfl
  | cons e rest ih =>
    rw [List.map_cons, List.mem_cons, not_or] at h
    rw [putEntry, if_neg (Ne.symm h.1), ih h.2, List.cons_append]

theorem mem_of_mem_putEntry {κ β : Type} [DecidableEq κ] {k : κ} {v : β} {e : κ × β}
    {es : List (κ × β)} (h : e ∈ putEntry k v es) : e = (k, v) ∨ e ∈ es := by
  induction es with
  | nil => exact .inl (List.mem_singleton.1 h)
  | cons e' rest ih =>
    rw [putEntry] at h
    split at h
    · rename_i hk
      rcases List.mem_cons.1 h with rfl | h
      · exact .inl (hk ▸ rfl)
      · exact .inr (List.mem_cons_of_mem e' h)
    · rcases List.mem_cons.1 h with rfl | h
      · exact .inr List.mem_cons_self
      · exact (ih h).imp_right (List.mem_cons_of_mem e')

/-! ## Tables -/

/-- Keyed entries in order of first insertion, no key twice. -/
structure Table (κ β : Type) where
  entries : List (κ × β)
  nodup_keys : (entries.map Prod.fst).Nodup

namespace Table

variable {κ β : Type}

def empty : Table κ β := ⟨[], by simp⟩

def keys (t : Table κ β) : List κ := t.entries.map Prod.fst

def size (t : Table κ β) : Nat := t.entries.length

/-- The same keys with other values. -/
def mapValues {δ : Type} (f : β → δ) (t : Table κ β) : Table κ δ :=
  ⟨t.entries.map fun e => (e.1, f e.2), by
    rw [List.map_map, show Prod.fst ∘ (fun e : κ × β => (e.1, f e.2)) = Prod.fst from rfl]
    exact t.nodup_keys⟩

variable [DecidableEq κ]

def insert (t : Table κ β) (k : κ) (v : β) : Table κ β :=
  ⟨putEntry k v t.entries, nodup_keys_putEntry k v t.entries t.nodup_keys⟩

def get? (t : Table κ β) (k : κ) : Option β := findEntry k t.entries

def contains (t : Table κ β) (k : κ) : Bool := (t.get? k).isSome

/-- Drop the entry keyed `k`. -/
def erase (t : Table κ β) (k : κ) : Table κ β :=
  ⟨t.entries.filter fun e => e.1 ≠ k,
    (List.filter_sublist.map Prod.fst).nodup t.nodup_keys⟩

/-- Insert the entries from left to right: of two with one key the later value stays. -/
def ofList (es : List (κ × β)) : Table κ β :=
  es.foldl (fun t e => t.insert e.1 e.2) empty

/-- No entry is shadowed by another one. -/
theorem get?_eq_some_iff (t : Table κ β) (k : κ) (v : β) :
    t.get? k = some v ↔ (k, v) ∈ t.entries :=
  findEntry_eq_some_iff k v t.entries t.nodup_keys

theorem get?_insert (t : Table κ β) (k j : κ) (v : β) :
    (t.insert k v).get? j = if j = k then some v else t.get? j :=
  findEntry_putEntry k j v t.entries

theorem mem_of_mem_foldl_insert {es : List (κ × β)} {t : Table κ β} {e : κ × β}
    (h : e ∈ (es.foldl (fun t e => t.insert e.1 e.2) t).entries) : e ∈ t.entries ∨ e ∈ es := by
  induction es generalizing t with
  | nil => exact .inl h
  | cons e' rest ih =>
    rcases ih h with h | h
    · exact (mem_of_mem_putEntry h).elim (fun heq => .inr (heq ▸ List.mem_cons_self)) .inl
    · exact .inr (List.mem_cons_of_mem e' h)

theorem entries_foldl_insert (es : List (κ × β)) (t : Table κ β)
    (h : (t.entries.map Prod.fst ++ es.map Prod.fst).Nodup) :
    (es.foldl (fun t e => t.insert e.1 e.2) t).entries = t.entries ++ es := by
  induction es generalizing t with
  | nil => rw [List.foldl_nil, List.append_nil]
  | cons e rest ih =>
    have hnew : e.1 ∉ t.entries.map Prod.fst := fun hm =>
      (List.nodup_append.1 h).2.2 e.1 hm e.1 List.mem_cons_self rfl
    have hentries : (t.insert e.1 e.2).entries = t.entries ++ [e] := putEntry_of_not_mem hnew e.2
    have hsplit : t.entries.map Prod.fst ++ (e :: rest).map Prod.fst =
        (t.entries ++ [e]).map Prod.fst ++ rest.map Prod.fst := by simp
    rw [hsplit] at h
    rw [List.foldl_cons, ih _ (hentries ▸ h), hentries, List.append_assoc]
    rfl

/-- A list without repeated keys is a table as it stands. -/
theorem entries_ofList {es : List (κ × β)} (h : (es.map Prod.fst).Nodup) :
    (ofList es).entries = es :=
  entries_foldl_insert es empty h

/-- A table of a list holds entries of the list only. -/
theorem mem_of_mem_ofList {es : List (κ × β)} {e : κ × β} (h : e ∈ (ofList es).entries) :
    e ∈ es :=
  (mem_of_mem_foldl_insert h).elim (fun h => nomatch h) id

end Table

end HexRules
