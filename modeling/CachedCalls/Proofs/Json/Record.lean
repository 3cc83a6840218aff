/-
# Laid out records read back

Typed data is read while the text is read, with one reader for each field of a
record. If the members of an object are the fields of the record, in any order
and each once, and each reader reads the value that was written for its field,
the record is read as a whole. Lists of typed data are read like any array.
-/

import CachedCalls.Proofs.Json.Document

namespace CachedCalls

namespace Reader

open Json

variable {α : Type}

/-! ## Lists -/

theorem reads_list {element : Reader α} {toJson : α → Json} {level : Nat} {items : List α}
    (hstarts : ∀ a ∈ items, StartsValue (render (level + 1) (toJson a)))
    (hreads : ∀ a ∈ items, Reads element (render (level + 1) (toJson a)) a) :
    Reads (list element) (render level (.array (items.map toJson))) items := by
  have hloop := elementsRead_collect hstarts hreads []
  rw [List.append_nil] at hloop
  unfold list
  apply reads_of_peek (head?_render_array level _) (by decide)
  intro rest _
  rw [if_pos rfl, bind_of_ok (listOf_render hloop rest), List.reverse_reverse]
  rfl

/-! ## Records -/

/-- Each member is read into the record that those in front of it have left. -/
inductive FieldsRead (shape : RecordShape Reader α) (level : Nat) :
    α → List (String × Json) → α → Prop
  | nil (record : α) : FieldsRead shape level record [] record
  | cons {record next final : α} {name : String} {value : Json} {later : List (String × Json)}
      (reads : Reads (shape.assign record name) (render level value) next)
      (rest : FieldsRead shape level next later final) :
      FieldsRead shape level record ((name, value) :: later) final

/-- A field is read if its reader does nothing but put the value it reads into the record. -/
theorem FieldsRead.field {β : Type} {shape : RecordShape Reader α} {level : Nat}
    {record final : α} {name : String} {value : Json} {later : List (String × Json)}
    {reader : Reader β} {b : β} {f : β → α}
    (hassign : shape.assign record name = (do return f (← reader)))
    (hread : Reads reader (render level value) b)
    (hlater : FieldsRead shape level (f b) later final) :
    FieldsRead shape level record ((name, value) :: later) final := by
  refine .cons ?_ hlater
  rw [hassign]
  exact hread.map f

/-- A member is assigned to its field if it is one that was not given before. -/
theorem reads_assignMember {shape : RecordShape Reader α} {cs : List Char} {given : List String}
    {record next : α} {name : String} (hfield : name ∈ shape.fields) (hnew : name ∉ given)
    (h : Reads (shape.assign record name) cs next) (strictness : Strictness) :
    Reads (assignMember shape strictness (given, record) name) (':' :: ' ' :: cs)
      (name :: given, next) := by
  have hassign : assignMember shape strictness (given, record) name =
      (do Reader.colon; return (name :: given, ← shape.assign record name)) := by
    simp [assignMember, hfield, hnew]
  rw [hassign]
  exact (h.map fun next => (name :: given, next)).colon

theorem membersRead_of_fieldsRead {shape : RecordShape Reader α} {level : Nat}
    {members : List (String × Json)} {record final : α}
    (h : FieldsRead shape level record members final) (strictness : Strictness)
    {given : List String} (hfields : ∀ member ∈ members, member.1 ∈ shape.fields)
    (hnew : (members.map Prod.fst ++ given).Nodup) :
    MembersRead (assignMember shape strictness) level (given, record) members
      ((members.map Prod.fst).reverse ++ given, final) := by
  induction h generalizing given with
  | nil record => exact .nil (given, record)
  | @cons record next final name value later hreads hlater ih =>
      rw [List.forall_mem_cons] at hfields
      rw [List.map_cons, List.cons_append] at hnew
      have hrest : (later.map Prod.fst ++ name :: given).Nodup :=
        List.perm_middle.nodup_iff.mpr hnew
      have hname : name ∉ given := fun hgiven =>
        (List.nodup_cons.mp hnew).1 (List.mem_append_right _ hgiven)
      rw [List.map_cons, List.reverse_cons, List.append_assoc]
      exact .cons (reads_assignMember hfields.1 hname hreads strictness) (ih hfields.2 hrest)

/-- A record is read from an object whose members are its fields. -/
theorem reads_record {shape : RecordShape Reader α} {level : Nat}
    {members : List (String × Json)} {a : α}
    (h : FieldsRead shape (level + 1) shape.blank members a)
    (hfields : (members.map Prod.fst).Perm shape.fields) (hnodup : shape.fields.Nodup)
    (strictness : Strictness) :
    Reads (record shape strictness) (render level (.object members)) a := by
  have hnames : (members.map Prod.fst ++ []).Nodup := by
    rw [List.append_nil]
    exact hfields.nodup_iff.mpr hnodup
  have hloop := membersRead_of_fieldsRead h strictness
    (fun member hmember => hfields.mem_iff.mp (List.mem_map_of_mem hmember)) hnames
  -- Every field was given, so none is missed at the end.
  have hfind : shape.fields.find?
      (fun name => !((members.map Prod.fst).reverse ++ []).contains name) = none := by
    rw [List.find?_eq_none]
    intro name hname
    have hgiven : name ∈ members.map Prod.fst := hfields.mem_iff.mpr hname
    simpa using hgiven
  unfold record
  apply reads_of_peek (head?_render_object level members) (by decide)
  intro rest _
  obtain ⟨body, hbody, hfold⟩ := foldMembers_render hloop rest
  have hmembers : recordMembers shape strictness ('\x7b' :: body) = .ok (a, rest) := by
    rw [recordMembers, bind_of_ok (advance_cons _ _), bind_of_ok (get_apply _), bind_of_ok hfold]
    dsimp only
    rw [hfind]
    cases strictness <;> exact bind_of_ok (closeObject_apply rest)
  rw [hbody]
  exact hmembers

end Reader

end CachedCalls
