/-
# Edits read back from JSON

An edit is written with its kind in front, so reading knows the kind before it
comes to the other members. These are kept as values all the same, and an edit
is made of them only at the end. The three kinds differ in what they call and how
they read the position, and agree in everything else.
-/

import CachedCalls.Edit.Json
import CachedCalls.Proofs.Json.Record

namespace CachedCalls

open Json Reader

/-! ## Spans -/

/-- Both ends of a span can be held in 64 bits. -/
def Span.Held (span : Span) : Prop :=
  span.start < UInt64.size ∧ span.stop < UInt64.size

instance (span : Span) : Decidable span.Held :=
  inferInstanceAs (Decidable (_ ∧ _))

namespace Decoder

theorem map_of_ok {α β : Type} {x : Decoder α} {json : Json} {a : α} (h : x json = .ok a)
    (f : α → β) : (do return f (← x) : Decoder β) json = .ok (f a) := by
  simp [bind, ReaderT.bind, Except.bind, h, pure, ReaderT.pure, Except.pure]

/-- A record of two fields is read from an object that has the two in order. -/
theorem record_of_two_fields {α : Type} {shape : RecordShape Decoder α} {first second : String}
    {x y : Json} {a b : α} (hfields : shape.fields = [first, second]) (hne : first ≠ second)
    (hfirst : shape.assign shape.blank first x = .ok a)
    (hsecond : shape.assign a second y = .ok b) :
    record shape (.object [(first, x), (second, y)]) = .ok b := by
  simp [record, assignMembers, hfields, hne.symm, hfirst, hsecond, bind, Except.bind]

theorem offset_ofNat {n : Nat} (h : n < UInt64.size) :
    Decoder.offset (.ofNat n) = .ok n :=
  natural_ofNat h "usize"

end Decoder

namespace Span

theorem plain_toJson {span : Span} (h : span.Held) (depth : Nat) :
    Plain (depth + 1) span.toJson := by
  apply Plain.object
  simp only [List.forall_mem_cons, List.not_mem_nil, false_implies, implies_true, and_true]
  exact ⟨.number depth h.1, .number depth h.2⟩

theorem decode_toJson {span : Span} (h : span.Held) : decode span.toJson = .ok span := by
  refine Decoder.record_of_two_fields (a := ⟨span.start, 0⟩) rfl (by decide) ?_ ?_
  · have hassign : shape.assign ⟨0, 0⟩ "start" =
        (do return ⟨← Decoder.offset, 0⟩ : Decoder Span) := by simp [shape]
    exact (congrFun hassign _).trans (Decoder.map_of_ok (Decoder.offset_ofNat h.1) _)
  · have hassign : shape.assign ⟨span.start, 0⟩ "end" =
        (do return ⟨span.start, ← Decoder.offset⟩ : Decoder Span) := by simp [shape]
    exact (congrFun hassign _).trans (Decoder.map_of_ok (Decoder.offset_ofNat h.2) _)

end Span

namespace Edit

/-- All offsets of an edit can be held in 64 bits. -/
def Held (edit : Edit) : Prop :=
  edit.span.Held

instance (edit : Edit) : Decidable edit.Held :=
  inferInstanceAs (Decidable edit.span.Held)

/-! ## Members -/

theorem reads_kind {name : String} {kind : Kind} (h : Kind.ofName name = .ok kind) :
    Reads Kind.reader (renderString name) kind := by
  unfold Kind.reader
  apply reads_of_peek rfl (by decide)
  intro rest _
  rw [if_pos rfl, bind_of_ok (quoted_renderString name rest), h]
  rfl

theorem reads_readMember_kind {depth : Nat} {name : String} {kind : Kind}
    (h : Kind.ofName name = .ok kind) (members : List (String × Json)) :
    Reads (readMember depth (none, members) "kind") (':' :: ' ' :: renderString name)
      (some kind, members) :=
  ((reads_kind h).map fun kind => (some kind, members)).colon

theorem reads_readMember_value {depth : Nat} {json : Json} (h : Plain depth json) (level : Nat)
    {name : String} (hname : name ≠ "kind") (state : Option Kind × List (String × Json)) :
    Reads (readMember depth state name) (':' :: ' ' :: render level json)
      (state.1, (name, json) :: state.2) := by
  have hread : readMember depth state name =
      (do Reader.colon; return (state.1, (name, ← value depth) :: state.2)) := by
    simp [readMember, hname]
  rw [hread]
  exact ((reads_value h level).map fun json => (state.1, (name, json) :: state.2)).colon

/-- An edit is written as its kind, its position and its text. -/
def members (kind place : String) (position : Json) (text : String) : List (String × Json) :=
  [("kind", .string kind), (place, position), ("text", .string text)]

theorem reads_readParts {depth : Nat} {name place text : String} {kind : Kind} {position : Json}
    (hkind : Kind.ofName name = .ok kind) (hplace : place ≠ "kind") (hposition : Plain depth position)
    (level : Nat) :
    Reads (readParts depth) (render level (.object (members name place position text)))
      (kind, .object [(place, position), ("text", .string text)]) := by
  have hloop : MembersRead (readMember depth) (level + 1) (none, [])
      (members name place position text)
      (some kind, [("text", .string text), (place, position)]) :=
    .cons (reads_readMember_kind hkind [])
      (.cons (reads_readMember_value hposition (level + 1) hplace _)
        (.cons (reads_readMember_value (.string depth text) (level + 1) (by decide) _) (.nil _)))
  unfold readParts
  apply reads_of_peek (head?_render_object level _) (by decide)
  intro rest _
  obtain ⟨body, hbody, hfold⟩ := foldMembers_render hloop rest
  rw [hbody]
  refine (bind_of_ok (advance_cons _ _)).trans ?_
  rw [bind_of_ok (get_apply _), bind_of_ok hfold]
  exact bind_of_ok (closeObject_apply rest)

/-! ## Fields -/

theorem record_shape_eq_ok {α : Type} {kind : Kind} {place : String} {decode : Decoder α}
    {blank a : α} {position : Json} (hplace : place ≠ "text") (h : decode position = .ok a)
    (text : String) :
    Decoder.record (shape kind place decode blank)
      (.object [(place, position), ("text", .string text)]) = .ok (a, text) := by
  refine Decoder.record_of_two_fields (a := (a, "")) rfl hplace ?_ ?_
  · have hassign : (shape kind place decode blank).assign (blank, "") place =
        (do return (← decode, "") : Decoder (α × String)) := if_pos rfl
    exact (congrFun hassign position).trans (Decoder.map_of_ok h fun a => (a, ""))
  · have hassign : (shape kind place decode blank).assign (a, "") "text" =
        (do return (a, ← Decoder.text) : Decoder (α × String)) := if_neg hplace.symm
    exact (congrFun hassign _).trans (Decoder.map_of_ok (x := Decoder.text) rfl fun text => (a, text))

theorem decodeAs_replace {span : Span} (h : span.Held) (text : String) :
    decodeAs .replace (.object [("span", span.toJson), ("text", .string text)]) =
      .ok (.replace span text) := by
  have hrecord : Decoder.record (shape .replace "span" Span.decode ⟨0, 0⟩)
      (.object [("span", span.toJson), ("text", .string text)]) = .ok (span, text) :=
    record_shape_eq_ok (by decide) (Span.decode_toJson h) text
  exact Decoder.map_of_ok hrecord fun parts => Edit.replace parts.1 parts.2

theorem decodeAs_insertBefore {offset : Nat} (h : offset < UInt64.size) (text : String) :
    decodeAs .insertBefore (.object [("offset", .ofNat offset), ("text", .string text)]) =
      .ok (.insertBefore offset text) := by
  have hrecord : Decoder.record (shape .insertBefore "offset" Decoder.offset 0)
      (.object [("offset", .ofNat offset), ("text", .string text)]) = .ok (offset, text) :=
    record_shape_eq_ok (by decide) (Decoder.offset_ofNat h) text
  exact Decoder.map_of_ok hrecord fun parts => Edit.insertBefore parts.1 parts.2

theorem decodeAs_insertAfter {offset : Nat} (h : offset < UInt64.size) (text : String) :
    decodeAs .insertAfter (.object [("offset", .ofNat offset), ("text", .string text)]) =
      .ok (.insertAfter offset text) := by
  have hrecord : Decoder.record (shape .insertAfter "offset" Decoder.offset 0)
      (.object [("offset", .ofNat offset), ("text", .string text)]) = .ok (offset, text) :=
    record_shape_eq_ok (by decide) (Decoder.offset_ofNat h) text
  exact Decoder.map_of_ok hrecord fun parts => Edit.insertAfter parts.1 parts.2

/-- An edit is read if its parts are and make it up. -/
theorem reads_of_parts {depth : Nat} {cs : List Char} {kind : Kind} {fields : Json} {edit : Edit}
    (hparts : Reads (readParts depth) cs (kind, fields))
    (hdecode : decodeAs kind fields = .ok edit) : Reads (reader depth) cs edit := by
  intro gap rest hgap hrest
  rw [reader, bind_of_ok (hparts gap rest hgap hrest)]
  dsimp only
  rw [hdecode]
  rfl

/-- Every edit whose offsets can be held is read back. Its position is an object of its own at most,
so a depth of one is enough. -/
theorem reads_edit {edit : Edit} (h : edit.Held) (depth level : Nat) :
    Reads (reader (depth + 1)) (render level edit.toJson) edit := by
  cases edit with
  | replace span text =>
      exact reads_of_parts
        (reads_readParts rfl (by decide) (Span.plain_toJson h depth) level)
        (decodeAs_replace h text)
  | insertBefore offset text =>
      exact reads_of_parts
        (reads_readParts rfl (by decide) (.number (depth + 1) h.1) level)
        (decodeAs_insertBefore h.1 text)
  | insertAfter offset text =>
      exact reads_of_parts
        (reads_readParts rfl (by decide) (.number (depth + 1) h.1) level)
        (decodeAs_insertAfter h.1 text)

end Edit

end CachedCalls
