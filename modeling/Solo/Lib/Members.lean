import Solo.Lib.JsonWrite

/-!
# Members edited in place

`insert`, `entry().or_insert` and `get_mut` of a map of members, and a function on all values. The
places of the members depend on their keys only, so an edit of one member commutes with an insertion
of another.
-/

namespace Json

variable {N : Type} {key key' : List Char} {fields : Fields N}

/-- `get_mut` of a member and an edit of it. -/
def modifyField (key : List Char) (f : Json N → Json N) : Fields N → Fields N
  | [] => []
  | (k, v) :: fields => if key = k then (k, f v) :: fields else (k, v) :: modifyField key f fields

/-- `entry(key).or_insert(value)`. -/
def entryOrInsert (key : List Char) (value : Json N) (fields : Fields N) : Fields N :=
  if (fields.lookup key).isSome then fields else insertField key value fields

def mapValues (f : Json N → Json N) (fields : Fields N) : Fields N :=
  fields.map fun kv => (kv.1, f kv.2)

theorem lookup_cons_self (value : Json N) : ((key, value) :: fields).lookup key = some value :=
  List.lookup_cons_self

theorem lookup_cons_ne (h : key ≠ key') (value : Json N) : ((key', value) :: fields).lookup key =
    fields.lookup key := by
  rw [List.lookup_cons, beq_false_of_ne h]

theorem lookup_insertField_self (value : Json N) : (insertField key value fields).lookup key =
    some value := by
  induction fields with
  | nil => exact lookup_cons_self value
  | cons kv fields ih =>
    obtain ⟨k, v⟩ := kv
    rw [insertField]
    split_ifs with hlt heq
    · exact lookup_cons_self value
    · exact lookup_cons_self value
    · rw [lookup_cons_ne heq, ih]

theorem lookup_insertField_ne (h : key ≠ key') (value : Json N) :
    (insertField key' value fields).lookup key = fields.lookup key := by
  induction fields with
  | nil => exact lookup_cons_ne h value
  | cons kv fields ih =>
    obtain ⟨k, v⟩ := kv
    rw [insertField]
    split_ifs with hlt heq
    · exact lookup_cons_ne h value
    · rw [lookup_cons_ne h, lookup_cons_ne (heq ▸ h)]
    · rw [List.lookup_cons, List.lookup_cons, ih]

theorem lookup_modifyField_self (f : Json N → Json N) : (modifyField key f fields).lookup key =
    (fields.lookup key).map f := by
  induction fields with
  | nil => rfl
  | cons kv fields ih =>
    obtain ⟨k, v⟩ := kv
    rw [modifyField]
    split_ifs with heq
    · obtain rfl := heq
      rw [lookup_cons_self, lookup_cons_self, Option.map_some]
    · rw [lookup_cons_ne heq, lookup_cons_ne heq, ih]

theorem lookup_modifyField_ne (h : key ≠ key') (f : Json N → Json N) :
    (modifyField key' f fields).lookup key = fields.lookup key := by
  induction fields with
  | nil => rfl
  | cons kv fields ih =>
    obtain ⟨k, v⟩ := kv
    rw [modifyField]
    split_ifs with heq
    · obtain rfl := heq
      rw [lookup_cons_ne h, lookup_cons_ne h]
    · rw [List.lookup_cons, List.lookup_cons, ih]

theorem lookup_mapValues (f : Json N → Json N) :
    (mapValues f fields).lookup key = (fields.lookup key).map f := by
  induction fields with
  | nil => rfl
  | cons kv fields ih =>
    obtain ⟨k, v⟩ := kv
    have hcons : mapValues f ((k, v) :: fields) = (k, f v) :: mapValues f fields := rfl
    rw [hcons, List.lookup_cons, List.lookup_cons, ih]
    cases key == k with
    | true => rfl
    | false => rfl

theorem insertField_of_lt {k : List Char} (h : keyLt key k = true) (v x : Json N) :
    insertField key v ((k, x) :: fields) = (key, v) :: (k, x) :: fields := if_pos h

theorem insertField_of_eq (v x : Json N) : insertField key v ((key, x) :: fields) = (key, v) ::
    fields := by
  rw [insertField, keyLt_irrefl, if_neg Bool.false_ne_true, if_pos rfl]

theorem insertField_of_gt {k : List Char} (hlt : ¬keyLt key k = true) (hne : key ≠ k)
    (v x : Json N) :
    insertField key v ((k, x) :: fields) = (k, x) :: insertField key v fields :=
    (if_neg hlt).trans (if_neg hne)

theorem insertField_insertField_self (v w : Json N) : insertField key v (insertField key w fields) =
    insertField key v fields := by
  induction fields with
  | nil => exact insertField_of_eq v w
  | cons kv fields ih =>
    obtain ⟨k, x⟩ := kv
    by_cases hlt : keyLt key k = true
    · rw [insertField_of_lt hlt, insertField_of_lt hlt, insertField_of_eq]
    · by_cases heq : key = k
      · obtain rfl := heq
        rw [insertField_of_eq, insertField_of_eq, insertField_of_eq]
      · rw [insertField_of_gt hlt heq, insertField_of_gt hlt heq, insertField_of_gt hlt heq, ih]

theorem modifyField_insertField_ne (h : key ≠ key') (f : Json N → Json N) (v : Json N) :
    modifyField key f (insertField key' v fields) =
    insertField key' v (modifyField key f fields) := by
  induction fields with
  | nil => exact if_neg h
  | cons kv fields ih =>
    obtain ⟨k, x⟩ := kv
    by_cases hkey : key = k
    · obtain rfl := hkey
      rw [insertField, modifyField, if_pos rfl, insertField, if_neg h.symm, if_neg h.symm]
      split_ifs with hlt
      · rw [modifyField, if_neg h, modifyField, if_pos rfl]
      · rw [modifyField, if_pos rfl]
    · rw [insertField, modifyField, if_neg hkey, insertField]
      split_ifs with hlt heq
      · rw [modifyField, if_neg h, modifyField, if_neg hkey]
      · rw [modifyField, if_neg h]
      · rw [modifyField, if_neg hkey, ih]

theorem modifyField_modifyField_self (f g : Json N → Json N) :
    modifyField key f (modifyField key g fields) = modifyField key (fun v => f (g v)) fields := by
  induction fields with
  | nil => rfl
  | cons kv fields ih =>
    obtain ⟨k, x⟩ := kv
    rw [modifyField, modifyField]
    split_ifs with heq
    · rw [modifyField, if_pos heq]
    · rw [modifyField, if_neg heq, ih]

theorem mapValues_insertField (f : Json N → Json N) (v : Json N) :
    mapValues f (insertField key v fields) = insertField key (f v) (mapValues f fields) := by
  induction fields with
  | nil => rfl
  | cons kv fields ih =>
    obtain ⟨k, x⟩ := kv
    have hcons : mapValues f ((k, x) :: fields) = (k, f x) :: mapValues f fields := rfl
    rw [hcons, insertField, insertField]
    split_ifs with hlt heq
    · rfl
    · rfl
    · rw [← ih]
      rfl

theorem mapValues_modifyField {f g h : Json N → Json N}
    (hfg : ∀ v, fields.lookup key = some v → f (g v) = h (f v)) :
    mapValues f (modifyField key g fields) = modifyField key h (mapValues f fields) := by
  induction fields with
  | nil => rfl
  | cons kv fields ih =>
    obtain ⟨k, x⟩ := kv
    have hcons (y : Json N) (rest : Fields N) : mapValues f ((k, y) :: rest) = (k, f y) ::
        mapValues f rest := rfl
    rw [hcons, modifyField, modifyField]
    split_ifs with heq
    · obtain rfl := heq
      rw [hcons, hfg x (lookup_cons_self x)]
    · rw [hcons, ih fun v hv => hfg v ((lookup_cons_ne heq x).trans hv)]

theorem modifyField_congr {f g : Json N → Json N}
    (h : ∀ v, fields.lookup key = some v → f v = g v) :
    modifyField key f fields = modifyField key g fields := by
  induction fields with
  | nil => rfl
  | cons kv fields ih =>
    obtain ⟨k, x⟩ := kv
    rw [modifyField, modifyField]
    split_ifs with heq
    · obtain rfl := heq
      rw [h x (lookup_cons_self x)]
    · rw [ih fun v hv => h v ((lookup_cons_ne heq x).trans hv)]

/-- An edit that leaves the value as it is. -/
theorem modifyField_eq_self {f : Json N → Json N} (h : ∀ v, fields.lookup key = some v → f v = v) :
    modifyField key f fields = fields := by
  induction fields with
  | nil => rfl
  | cons kv fields ih =>
    obtain ⟨k, x⟩ := kv
    rw [modifyField]
    split_ifs with heq
    · obtain rfl := heq
      rw [h x (lookup_cons_self x)]
    · rw [ih fun v hv => h v ((lookup_cons_ne heq x).trans hv)]

theorem mem_modifyField {x : List Char × Json N} (f : Json N → Json N) (h : x ∈ fields) :
    x ∈ modifyField key f fields ∨ (x.1, f x.2) ∈ modifyField key f fields := by
  induction fields with
  | nil => exact absurd h List.not_mem_nil
  | cons kv fields ih =>
    obtain ⟨k, v⟩ := kv
    rw [modifyField]
    split_ifs with heq
    · rcases List.mem_cons.1 h with rfl | h
      · exact .inr List.mem_cons_self
      · exact .inl (List.mem_cons_of_mem _ h)
    · rcases List.mem_cons.1 h with rfl | h
      · exact .inl List.mem_cons_self
      · exact (ih h).imp (List.mem_cons_of_mem _) (List.mem_cons_of_mem _)

theorem mem_of_mem_modifyField {x : List Char × Json N} {f : Json N → Json N}
    (h : x ∈ modifyField key f fields) : x ∈ fields ∨ ∃ v, (x.1, v) ∈ fields ∧ x.2 = f v := by
  induction fields with
  | nil => exact absurd h List.not_mem_nil
  | cons kv fields ih =>
    obtain ⟨k, v⟩ := kv
    rw [modifyField] at h
    split_ifs at h with heq
    · rcases List.mem_cons.1 h with rfl | h
      · exact .inr ⟨v, List.mem_cons_self, rfl⟩
      · exact .inl (List.mem_cons_of_mem _ h)
    · rcases List.mem_cons.1 h with rfl | h
      · exact .inl List.mem_cons_self
      · refine (ih h).imp (List.mem_cons_of_mem _) fun hv => ?_
        obtain ⟨w, hw, hx⟩ := hv
        exact ⟨w, List.mem_cons_of_mem _ hw, hx⟩

theorem sublist_insertField (v : Json N) (h : fields.lookup key = none) :
    fields.Sublist (insertField key v fields) := by
  induction fields with
  | nil => exact List.nil_sublist _
  | cons kv fields ih =>
    obtain ⟨k, x⟩ := kv
    have hne : key ≠ k := by
      rintro rfl
      rw [lookup_cons_self] at h
      cases h
    rw [lookup_cons_ne hne] at h
    rw [insertField, if_neg hne]
    split_ifs with hlt
    · exact List.sublist_cons_self _ _
    · exact (ih h).cons_cons _

/-- The members of other keys stay, in their order. -/
theorem filter_insertField {p : List Char × Json N → Bool} (hp : ∀ v, p (key, v) = false)
    (v : Json N) : (insertField key v fields).filter p = fields.filter p := by
  induction fields with
  | nil => exact List.filter_cons_of_neg (by rw [hp]; exact Bool.false_ne_true)
  | cons kv fields ih =>
    obtain ⟨k, x⟩ := kv
    have hnot (w : Json N) : ¬p (key, w) = true := by rw [hp]; exact Bool.false_ne_true
    rw [insertField]
    split_ifs with hlt heq
    · rw [List.filter_cons_of_neg (hnot v)]
    · obtain rfl := heq
      rw [List.filter_cons_of_neg (hnot v), List.filter_cons_of_neg (hnot x)]
    · rw [List.filter_cons, List.filter_cons, ih]

theorem filter_modifyField {p : List Char × Json N → Bool} (hp : ∀ v, p (key, v) = false)
    (f : Json N → Json N) : (modifyField key f fields).filter p = fields.filter p := by
  induction fields with
  | nil => rfl
  | cons kv fields ih =>
    obtain ⟨k, x⟩ := kv
    have hnot (w : Json N) : ¬p (key, w) = true := by rw [hp]; exact Bool.false_ne_true
    rw [modifyField]
    split_ifs with heq
    · obtain rfl := heq
      rw [List.filter_cons_of_neg (hnot _), List.filter_cons_of_neg (hnot x)]
    · rw [List.filter_cons, List.filter_cons, ih]

/-! ### `entry().or_insert` -/

theorem entryOrInsert_of_some {v : Json N} (h : (fields.lookup key).isSome = true) :
    entryOrInsert key v fields = fields := if_pos h

theorem entryOrInsert_of_none {v : Json N} (h : fields.lookup key = none) :
    entryOrInsert key v fields = insertField key v fields := by
  rw [entryOrInsert, h, Option.isSome_none, if_neg Bool.false_ne_true]

theorem lookup_entryOrInsert_self (v : Json N) : (entryOrInsert key v fields).lookup key =
    some ((fields.lookup key).getD v) := by
  cases h : fields.lookup key with
  | none => rw [entryOrInsert_of_none h, lookup_insertField_self, Option.getD_none]
  | some w => rw [entryOrInsert_of_some (by rw [h]; rfl), h, Option.getD_some]

theorem lookup_entryOrInsert_ne (h : key ≠ key') (v : Json N) :
    (entryOrInsert key' v fields).lookup key = fields.lookup key := by
  rw [entryOrInsert]
  split_ifs
  · rfl
  · exact lookup_insertField_ne h v

theorem mapValues_entryOrInsert (f : Json N → Json N) (v : Json N) :
    mapValues f (entryOrInsert key v fields) = entryOrInsert key (f v) (mapValues f fields) := by
  rw [entryOrInsert, entryOrInsert, lookup_mapValues, Option.isSome_map]
  split_ifs
  · rfl
  · exact mapValues_insertField f v

theorem modifyField_entryOrInsert_ne (h : key ≠ key') (f : Json N → Json N) (v : Json N) :
    modifyField key f (entryOrInsert key' v fields) =
    entryOrInsert key' v (modifyField key f fields) := by
  rw [entryOrInsert, entryOrInsert, lookup_modifyField_ne h.symm]
  split_ifs
  · rfl
  · exact modifyField_insertField_ne h f v

theorem sublist_entryOrInsert (v : Json N) : fields.Sublist (entryOrInsert key v fields) := by
  cases h : fields.lookup key with
  | none => rw [entryOrInsert_of_none h]; exact sublist_insertField v h
  | some w => rw [entryOrInsert_of_some (by rw [h]; rfl)]

theorem mem_of_mem_entryOrInsert {x : List Char × Json N} {v : Json N}
    (h : x ∈ entryOrInsert key v fields) : x = (key, v) ∨ x ∈ fields := by
  rw [entryOrInsert] at h
  split_ifs at h
  · exact .inr h
  · exact insertField_mem h

theorem filter_entryOrInsert {p : List Char × Json N → Bool} (hp : ∀ v, p (key, v) = false)
    (v : Json N) : (entryOrInsert key v fields).filter p = fields.filter p := by
  rw [entryOrInsert]
  split_ifs
  · rfl
  · exact filter_insertField hp v

/-- A member that is in its place stays there when a member is put in that does not come after
it. -/
theorem insertField_insertField_of_self {v w : Json N} (hlt : ¬keyLt key key' = true)
    (hne : key ≠ key') (h : insertField key v fields = fields) :
    insertField key v (insertField key' w fields) = insertField key' w fields := by
  induction fields with
  | nil => cases h
  | cons kv fields ih =>
    obtain ⟨k, x⟩ := kv
    have hnot : ¬keyLt key k = true := by
      intro hk
      rw [insertField_of_lt hk] at h
      have hlength := congrArg List.length h
      rw [List.length_cons, List.length_cons] at hlength
      omega
    by_cases heq : key = k
    · obtain rfl := heq
      by_cases hk : keyLt key' key = true
      · rw [insertField_of_lt hk, insertField_of_gt hlt hne, h]
      · rw [insertField_of_gt hk hne.symm, insertField_of_eq]
        rw [insertField_of_eq] at h
        rw [(Prod.mk.inj (List.cons.inj h).1).2]
    · rw [insertField_of_gt hnot heq] at h
      have htail : insertField key v fields = fields := (List.cons.inj h).2
      by_cases hk : keyLt key' k = true
      · rw [insertField_of_lt hk, insertField_of_gt hlt hne, insertField_of_gt hnot heq, htail]
      · by_cases heq' : key' = k
        · obtain rfl := heq'
          rw [insertField_of_eq, insertField_of_gt hnot heq, htail]
        · rw [insertField_of_gt hk heq', insertField_of_gt hnot heq, ih htail]

end Json
