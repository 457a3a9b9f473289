import KLang.Table

/-!
# Tables

* `Table.get?_isSome`: exactly the names of a table are bound.
* `Table.names_insert`: binding a name again keeps the names, and a new name comes last.
* `Table.nodup_names_insert`: no name is bound twice, and `Table.get?_of_mem`: so each entry is what
  its name gets.
* `Table.get?_insert`: a name gets the value that it was bound to last.
* `Table.ofList_eq`: names that are all different are bound in their order.
* `Table.map`: the table with every value changed.
-/

namespace KLang.Table

variable {α : Type}

theorem get?_isSome (t : Table α) (name : String) : (t.get? name).isSome ↔ name ∈ t.names := by
  rw [get?, names, List.lookup_isSome_iff, List.mem_map]
  simp only [beq_iff_eq, @eq_comm String name]

theorem contains_iff (t : Table α) (name : String) : t.contains name = true ↔ name ∈ t.names :=
  get?_isSome t name

theorem map_fst_insertEntry (name : String) (value : α) (entries : List (String × α)) :
    (insertEntry name value entries).map Prod.fst =
      if name ∈ entries.map Prod.fst then entries.map Prod.fst
      else entries.map Prod.fst ++ [name] := by
  induction entries with
  | nil => rfl
  | cons entry entries ih =>
    obtain ⟨n, v⟩ := entry
    by_cases hn : n = name
    · simp [insertEntry, hn]
    · simp only [insertEntry, if_neg hn, List.map_cons, ih, List.mem_cons, Ne.symm hn, false_or]
      split <;> rfl

theorem names_insert (t : Table α) (name : String) (value : α) :
    (t.insert name value).names = if name ∈ t.names then t.names else t.names ++ [name] :=
  map_fst_insertEntry name value t.entries

theorem names_insert_of_mem {t : Table α} {name : String} (h : name ∈ t.names) (value : α) :
    (t.insert name value).names = t.names :=
  (names_insert t name value).trans (if_pos h)

theorem names_prefix_insert (t : Table α) (name : String) (value : α) :
    t.names <+: (t.insert name value).names := by
  rw [names_insert]
  split
  · exact List.prefix_rfl
  · exact List.prefix_append _ _

theorem nodup_names_insert {t : Table α} (h : t.names.Nodup) (name : String) (value : α) :
    (t.insert name value).names.Nodup := by
  rw [names_insert]
  split
  · exact h
  · rename_i hname
    refine List.nodup_append.mpr ⟨h, List.pairwise_singleton _ _, fun n hn m hm => ?_⟩
    obtain rfl := List.mem_singleton.mp hm
    rintro rfl
    exact hname hn

theorem mem_insertEntry {name : String} {value : α} {entries : List (String × α)}
    {entry : String × α} (h : entry ∈ insertEntry name value entries) :
    entry = (name, value) ∨ entry ∈ entries := by
  induction entries with
  | nil => exact .inl (List.mem_singleton.mp h)
  | cons first entries ih =>
    obtain ⟨n, v⟩ := first
    rw [insertEntry] at h
    split at h
    · exact (List.mem_cons.mp h).imp_right (List.mem_cons_of_mem _)
    · obtain rfl | h := List.mem_cons.mp h
      · exact .inr List.mem_cons_self
      · exact (ih h).imp_right (List.mem_cons_of_mem _)

theorem lookup_insertEntry (name : String) (value : α) (entries : List (String × α)) (n : String) :
    (insertEntry name value entries).lookup n =
      if n = name then some value else entries.lookup n := by
  have hbeq {m : String} (h : ¬n = m) : (n == m) = false := by simpa using h
  induction entries with
  | nil =>
    by_cases hn : n = name
    · simp [insertEntry, hn]
    · simp [insertEntry, List.lookup_cons, hbeq hn, hn]
  | cons entry entries ih =>
    obtain ⟨m, v⟩ := entry
    by_cases hm : m = name
    · by_cases hn : n = name
      · simp [insertEntry, hm, hn]
      · simp [insertEntry, hm, hn, List.lookup_cons, hbeq hn]
    · rw [insertEntry, if_neg hm, List.lookup_cons, List.lookup_cons, ih]
      by_cases hnm : n = m
      · simp [hnm, hm]
      · simp [hbeq hnm]

/-- A table gives the value that a name was bound to last. -/
theorem get?_insert (t : Table α) (name : String) (value : α) (n : String) :
    (t.insert name value).get? n = if n = name then some value else t.get? n :=
  lookup_insertEntry name value t.entries n

/-- Where no name is bound twice, each entry is what its name gets. -/
theorem get?_of_mem {t : Table α} (h : t.names.Nodup) {name : String} {value : α}
    (hentry : (name, value) ∈ t.entries) : t.get? name = some value := by
  obtain ⟨entries⟩ := t
  change entries.lookup name = some value
  induction entries with
  | nil => cases hentry
  | cons first entries ih =>
    obtain ⟨n, v⟩ := first
    obtain ⟨hn, hrest⟩ := List.nodup_cons.mp h
    obtain heq | hentry := List.mem_cons.mp hentry
    · obtain ⟨rfl, rfl⟩ := Prod.mk.inj heq
      exact List.lookup_cons_self
    · have hname : name ∈ entries.map Prod.fst := List.mem_map_of_mem hentry
      have hne : name ≠ n := fun heq => hn (heq ▸ hname)
      rw [List.lookup_cons, beq_eq_false_iff_ne.mpr hne]
      exact ih hrest hentry

theorem mem_of_get? {t : Table α} {name : String} {value : α} (h : t.get? name = some value) :
    (name, value) ∈ t.entries := by
  obtain ⟨l, l', hl, -⟩ := List.lookup_eq_some_iff.mp h
  rw [hl]
  exact List.mem_append_right l List.mem_cons_self

theorem insert_eq_self {t : Table α} {name : String} {value : α} (h : t.get? name = some value) :
    t.insert name value = t := by
  obtain ⟨entries⟩ := t
  refine congrArg Table.mk ?_
  change entries.lookup name = some value at h
  induction entries with
  | nil => exact nomatch h
  | cons first entries ih =>
    obtain ⟨n, v⟩ := first
    rw [insertEntry]
    split
    · rename_i hn
      rw [hn, List.lookup_cons_self] at h
      rw [hn, Option.some.inj h]
    · rename_i hn
      rw [List.lookup_cons, beq_eq_false_iff_ne.mpr (Ne.symm hn)] at h
      rw [ih h]

theorem entries_insert_of_not_mem {t : Table α} {name : String} (h : name ∉ t.names) (value : α) :
    (t.insert name value).entries = t.entries ++ [(name, value)] := by
  obtain ⟨entries⟩ := t
  change insertEntry name value entries = entries ++ [(name, value)]
  induction entries with
  | nil => rfl
  | cons first entries ih =>
    obtain ⟨n, v⟩ := first
    obtain ⟨hn, hrest⟩ := not_or.mp (mt List.mem_cons.mpr h)
    rw [insertEntry, if_neg (Ne.symm hn), ih hrest, List.cons_append]

theorem foldl_insert (t : Table α) (l : List (String × α)) (hl : (l.map Prod.fst).Nodup)
    (hnew : ∀ n ∈ l.map Prod.fst, n ∉ t.names) :
    l.foldl (fun t (n, v) => t.insert n v) t = ⟨t.entries ++ l⟩ := by
  induction l generalizing t with
  | nil => rw [List.append_nil]; rfl
  | cons entry l ih =>
    obtain ⟨name, value⟩ := entry
    obtain ⟨hname, hl⟩ := List.nodup_cons.mp hl
    obtain ⟨hfirst, hnew⟩ := List.forall_mem_cons.mp hnew
    rw [List.foldl_cons, ih _ hl fun n hn => ?_, entries_insert_of_not_mem hfirst,
      List.append_assoc, List.singleton_append]
    rw [names_insert, if_neg hfirst, List.mem_append, List.mem_singleton]
    rintro (h | rfl)
    · exact hnew n hn h
    · exact hname hn

/-- Names that are all different are bound in their order. -/
theorem ofList_eq {l : List (String × α)} (h : (l.map Prod.fst).Nodup) : ofList l = ⟨l⟩ :=
  foldl_insert ∅ l h fun _ _ => List.not_mem_nil

section fixed

variable {t t' : Table α} {name : String} {value : α}
  (h : ∀ v, (name, v) ∈ t.entries → v = value)
include h

theorem entries_insert : (t.insert name value).entries =
    if name ∈ t.names then t.entries else t.entries ++ [(name, value)] := by
  split
  · rename_i hname
    obtain ⟨v, hv⟩ := Option.isSome_iff_exists.mp ((t.get?_isSome name).mpr hname)
    obtain rfl := h v (mem_of_get? hv)
    rw [insert_eq_self hv]
  · rename_i hname
    exact entries_insert_of_not_mem hname value

theorem entries_prefix_insert : t.entries <+: (t.insert name value).entries := by
  rw [entries_insert h]
  split
  · exact List.prefix_rfl
  · exact List.prefix_append _ _

theorem perm_insert (ht : t.entries.Perm t'.entries) :
    (t.insert name value).entries.Perm (t'.insert name value).entries := by
  have hnames : name ∈ t'.names ↔ name ∈ t.names := (ht.map Prod.fst).mem_iff.symm
  rw [entries_insert h, entries_insert fun v hv => h v (ht.mem_iff.mpr hv)]
  simp only [hnames]
  split
  · exact ht
  · exact ht.append_right _

theorem perm_insert_swap {name' : String} {value' : α} (hne : name ≠ name')
    (h' : ∀ v, (name', v) ∈ t.entries → v = value') :
    ((t.insert name value).insert name' value').entries.Perm
      ((t.insert name' value').insert name value).entries := by
  have hother {n n' : String} {v v' w : α} (hne : n ≠ n')
      (h : ∀ v, (n', v) ∈ t.entries → v = v') (hw : (n', w) ∈ (t.insert n v).entries) : w = v' := by
    obtain heq | hw := mem_insertEntry hw
    · exact (hne (Prod.mk.inj heq).1.symm).elim
    · exact h w hw
  have hnames {n n' : String} (hne : n ≠ n') (v : α) :
      n' ∈ (t.insert n v).names ↔ n' ∈ t.names := by
    rw [names_insert]
    split <;> simp [Ne.symm hne]
  rw [entries_insert fun _ => hother hne h', entries_insert fun _ => hother hne.symm h,
    entries_insert h, entries_insert h']
  simp only [hnames hne, hnames hne.symm]
  split <;> split <;> try rfl
  simp only [List.append_assoc]
  exact .append_left _ (.swap _ _ [])

end fixed

/-! ## Changed values -/

variable {β : Type}

/-- The table with every value changed. -/
def map (g : α → β) (t : Table α) : Table β :=
  ⟨t.entries.map fun (name, value) => (name, g value)⟩

theorem get?_map (g : α → β) (t : Table α) (name : String) :
    (t.map g).get? name = (t.get? name).map g := by
  obtain ⟨entries⟩ := t
  simp only [map, get?]
  induction entries with
  | nil => rfl
  | cons entry entries ih =>
    obtain ⟨n, v⟩ := entry
    simp only [List.map_cons, List.lookup_cons]
    split
    · rfl
    · exact ih

theorem map_insert (g : α → β) (t : Table α) (name : String) (value : α) :
    (t.insert name value).map g = (t.map g).insert name (g value) := by
  obtain ⟨entries⟩ := t
  simp only [map, insert, mk.injEq]
  induction entries with
  | nil => rfl
  | cons entry entries ih =>
    obtain ⟨n, v⟩ := entry
    simp only [insertEntry, List.map_cons]
    split
    · rfl
    · rw [List.map_cons, ih]

end KLang.Table
