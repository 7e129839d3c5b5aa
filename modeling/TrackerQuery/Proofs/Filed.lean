import TrackerQuery.Catalog.Read

/-!
# Catalogs that are filed by reference name

A catalog keeps each field under its reference name, and one field under each.
Reading a catalog makes it so; hence a field that is known by its identity is found
again by its reference name.
-/

namespace TrackerQuery.Catalog

/-- Each field stands under its reference name and is the one found there. -/
def Filed (fields : List (String × FieldDefinition)) : Prop :=
  ∀ entry ∈ fields, entry.2.referenceName = entry.1 ∧ fields.lookup entry.1 = some entry.2

theorem filed_core : Filed core.fields := by
  unfold Filed
  decide

variable {fields : List (String × FieldDefinition)}

theorem filed_concat (hfiled : Filed fields) {name : String} {field : FieldDefinition}
    (hname : field.referenceName = name) (hnew : ¬(fields.lookup name).isSome = true) :
    Filed (fields ++ [(name, field)]) := by
  intro entry hentry
  rw [List.lookup_append]
  rcases List.mem_append.mp hentry with hentry | hentry
  · obtain ⟨hreference, hlookup⟩ := hfiled entry hentry
    exact ⟨hreference, by rw [hlookup]; rfl⟩
  · obtain rfl := List.mem_singleton.mp hentry
    exact ⟨hname, by simp [Option.not_isSome_iff_eq_none.mp hnew]⟩

/-- A field that takes the place of another is found there, and nothing else
changes. -/
theorem lookup_replace (name key : String) (field : FieldDefinition) :
    (fields.map fun entry => if entry.1 == name then (name, field) else entry).lookup key =
      if key = name then (fields.lookup key).map fun _ => field else fields.lookup key := by
  induction fields with
  | nil => simp
  | cons entry fields ih =>
      obtain ⟨place, old⟩ := entry
      rw [List.map_cons, List.lookup_cons, ih]
      by_cases hplace : place = name
      · by_cases hkey : key = name
        · simp [hplace, hkey]
        · have hother : (key == name) = false := beq_false_of_ne hkey
          simp [hplace, hkey, hother, List.lookup_cons]
      · by_cases hkey : key = place
        · simp [hplace, hkey]
        · have hother : (key == place) = false := beq_false_of_ne hkey
          simp [hplace, hother, List.lookup_cons]

theorem filed_file (hfiled : Filed fields) {name : String} {field : FieldDefinition}
    (hname : field.referenceName = name) : Filed (file fields name field) := by
  unfold file
  split
  · rename_i hold
    intro entry hentry
    rw [lookup_replace]
    obtain ⟨old, hmem, rfl⟩ := List.mem_map.mp hentry
    obtain ⟨hreference, hlookup⟩ := hfiled old hmem
    by_cases hplace : old.1 = name
    · subst hplace
      simp [hname, hlookup]
    · simp [hplace, hreference, hlookup]
  · rename_i hnew
    exact filed_concat hfiled hname hnew

theorem referenceName_of_ofJson? {name : String} {json : Json} {field : FieldDefinition}
    (hread : FieldDefinition.ofJson? name json = some field) : field.referenceName = name := by
  unfold FieldDefinition.ofJson? at hread
  simp only [Option.bind_eq_bind, Option.bind_eq_some_iff, Option.pure_def,
    Option.some.injEq] at hread
  obtain ⟨_, -, _, -, _, -, _, -, _, -, _, -, _, -, rfl⟩ := hread
  rfl

theorem filed_of_foldlM (entries : List (String × Json)) {start : List (String × FieldDefinition)}
    (hstart : Filed start)
    (hread : entries.foldlM (fun fields entry =>
      (FieldDefinition.ofJson? entry.1 entry.2).map (file fields entry.1)) start = some fields) :
    Filed fields := by
  induction entries generalizing start with
  | nil =>
      cases hread
      exact hstart
  | cons entry entries ih =>
      rw [List.foldlM_cons] at hread
      obtain ⟨next, hnext, hread⟩ := Option.bind_eq_some_iff.mp hread
      obtain ⟨field, hfield, rfl⟩ := Option.map_eq_some_iff.mp hnext
      exact ih (filed_file hstart (referenceName_of_ofJson? hfield)) hread

/-- Every catalog that is read is filed. -/
theorem filed_of_read {text : String} {catalog : Catalog} (hread : read text = .ok catalog) :
    Filed catalog.fields := by
  unfold read at hread
  split at hread
  · rename_i found hfound
    cases hread
    obtain ⟨json, -, hjson⟩ := Option.bind_eq_some_iff.mp hfound
    unfold ofJson? at hjson
    simp only [Option.bind_eq_bind, Option.bind_eq_some_iff, Option.pure_def,
      Option.some.injEq] at hjson
    obtain ⟨members, -, _, -, _, -, fields, hfields, _, -, _, -, _, -, rfl⟩ := hjson
    unfold Json.optional at hfields
    split at hfields
    · obtain ⟨entries, -, hfold⟩ := Option.bind_eq_some_iff.mp hfields
      exact filed_of_foldlM entries (by simp [Filed]) hfold
    · cases hfields
      simp [Filed]
  · cases hread

/-- A field that is known by its identity is the one of its reference name. -/
theorem field?_referenceName {catalog : Catalog} (hfiled : Filed catalog.fields) {id : Int}
    {field : FieldDefinition} (hfield : catalog.fieldById? id = some field) :
    catalog.field? field.referenceName = some field := by
  obtain ⟨entry, hentry, rfl⟩ := List.mem_map.mp (List.mem_of_find?_eq_some hfield)
  obtain ⟨hreference, hlookup⟩ := hfiled entry hentry
  rw [field?, entry?, hreference, hlookup]
  rfl

end TrackerQuery.Catalog
