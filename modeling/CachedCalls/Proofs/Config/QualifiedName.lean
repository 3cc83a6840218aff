/-
# Names of adapters

An adapter is written into generated code, where it is called like a function. It
must therefore be a qualified name: identifiers joined by scope operators,
possibly with one more in front of them. The check of an adapter takes the text
apart at every scope operator and looks at the pieces. Taking apart and joining
are inverse to each other on pieces without colons, and identifiers have none, so
the check accepts the qualified names and nothing else. For the same reason a
qualified name has one first segment, and that is what parameters are compared with.
-/

import CachedCalls.Config
import CachedCalls.Proofs.Text.Word

namespace CachedCalls

open Text

/-- Identifiers joined by scope operators, with or without one in front. -/
def IsQualifiedName (text : String) : Prop :=
  ∃ (front : String) (segments : List String), (front = "" ∨ front = "::") ∧ segments ≠ [] ∧
    (∀ segment ∈ segments, isIdentifier segment = true) ∧ text = front ++ "::".intercalate segments

/-! ## Taking apart and joining -/

theorem scopeSegments_ne_nil (cs : List Char) : scopeSegments cs ≠ [] := by
  fun_induction scopeSegments cs <;> simp

/-- A scope operator ends an empty segment. -/
theorem scopeSegments_scope (cs : List Char) :
    scopeSegments ("::".toList ++ cs) = [] :: scopeSegments cs := by
  show scopeSegments (':' :: ':' :: cs) = [] :: scopeSegments cs
  rw [scopeSegments, if_pos ⟨rfl, rfl⟩, List.drop_one, List.tail_cons]

/-- What does not begin a scope operator belongs to the first segment. -/
theorem scopeSegments_cons_of_ne {c : Char} {cs segment : List Char} {segments : List (List Char)}
    (hc : c ≠ ':') (hcs : scopeSegments cs = segment :: segments) :
    scopeSegments (c :: cs) = (c :: segment) :: segments := by
  rw [scopeSegments, if_neg fun h => hc h.1, hcs]

theorem intercalate_cons_first (separator : List Char) (c : Char) (segment : List Char)
    (segments : List (List Char)) :
    separator.intercalate ((c :: segment) :: segments) =
      c :: separator.intercalate (segment :: segments) := by
  cases segments with
  | nil => simp
  | cons next segments => simp [List.intercalate_cons_cons]

/-- Joining the segments of a text gives the text back. -/
theorem intercalate_scopeSegments (cs : List Char) :
    "::".toList.intercalate (scopeSegments cs) = cs := by
  fun_induction scopeSegments cs with
  | case1 => rfl
  | case2 c cs hscope ih =>
      obtain ⟨rfl, hhead⟩ := hscope
      obtain ⟨rest, rfl⟩ := List.head?_eq_some_iff.mp hhead
      obtain ⟨segment, segments, hsegments⟩ :=
        List.exists_cons_of_ne_nil (scopeSegments_ne_nil rest)
      rw [List.drop_one, List.tail_cons, hsegments] at ih ⊢
      rw [List.intercalate_cons_cons, ih]
      rfl
  | case3 c cs _ hnil _ => exact absurd hnil (scopeSegments_ne_nil cs)
  | case4 c cs _ segment segments hsegments ih =>
      rw [intercalate_cons_first, ← hsegments, ih]

/-- A segment without colons comes back whole, in front of the segments of what follows it. -/
theorem scopeSegments_append {segment : List Char} (h : ':' ∉ segment) (cs : List Char) :
    scopeSegments (segment ++ ("::".toList ++ cs)) = segment :: scopeSegments cs := by
  induction segment with
  | nil => exact scopeSegments_scope cs
  | cons c segment ih =>
      rw [List.mem_cons, not_or] at h
      exact scopeSegments_cons_of_ne (Ne.symm h.1) (ih h.2)

theorem scopeSegments_of_not_mem {segment : List Char} (h : ':' ∉ segment) :
    scopeSegments segment = [segment] := by
  induction segment with
  | nil => rw [scopeSegments]
  | cons c segment ih =>
      rw [List.mem_cons, not_or] at h
      exact scopeSegments_cons_of_ne (Ne.symm h.1) (ih h.2)

/-- Segments without colons come back after they were joined. -/
theorem scopeSegments_intercalate {segments : List (List Char)} (hne : segments ≠ [])
    (h : ∀ segment ∈ segments, ':' ∉ segment) :
    scopeSegments ("::".toList.intercalate segments) = segments := by
  induction segments with
  | nil => exact absurd rfl hne
  | cons segment segments ih =>
      rw [List.forall_mem_cons] at h
      cases segments with
      | nil =>
          rw [List.intercalate_singleton]
          exact scopeSegments_of_not_mem h.1
      | cons next segments =>
          rw [List.intercalate_cons_cons, List.append_assoc, scopeSegments_append h.1,
            ih (List.cons_ne_nil next segments) h.2]

/-! ## The check of an adapter -/

theorem colon_not_mem_of_isIdentifier {text : String} (h : isIdentifier text = true) :
    ':' ∉ text.toList := by
  intro hcolon
  exact absurd (isIdentifierChar_of_mem h ':' hcolon) (by decide)

theorem checkMarker_eq_ok_iff {marker : String} :
    checkMarker marker = .ok () ↔ isIdentifier marker = true := by
  rw [checkMarker]
  split <;> simp_all

theorem isRooted_iff {adapter : String} :
    isRooted adapter = true ↔ ∃ rest, adapter = "::" ++ rest := by
  rw [isRooted, List.isPrefixOf_iff_prefix]
  constructor
  · rintro ⟨rest, hrest⟩
    refine ⟨String.ofList rest, String.toList_inj.mp ?_⟩
    simp [← hrest]
  · rintro ⟨rest, rfl⟩
    rw [String.toList_append]
    exact List.prefix_append _ _

theorem adapterSegments_rooted (rest : String) :
    adapterSegments ("::" ++ rest) = (scopeSegments rest.toList).map String.ofList := by
  rw [adapterSegments, isRooted_iff.mpr ⟨rest, rfl⟩, if_pos rfl, String.toList_append]
  rfl

theorem adapterSegments_unrooted {adapter : String} (h : isRooted adapter = false) :
    adapterSegments adapter = (scopeSegments adapter.toList).map String.ofList := by
  rw [adapterSegments, h]
  rfl

/-- The segments of a text, as texts again, joined. -/
theorem intercalate_map_scopeSegments (cs : List Char) :
    "::".intercalate ((scopeSegments cs).map String.ofList) = String.ofList cs := by
  rw [← String.toList_inj, String.toList_intercalate, String.toList_ofList, List.map_map]
  simpa [Function.comp_def] using intercalate_scopeSegments cs

/-- An adapter is what its segments are joined to, behind the scope operator it may begin with. -/
theorem exists_eq_append_adapterSegments (adapter : String) :
    ∃ front, (front = "" ∨ front = "::") ∧
      adapter = front ++ "::".intercalate (adapterSegments adapter) := by
  cases hrooted : isRooted adapter with
  | true =>
      obtain ⟨rest, rfl⟩ := isRooted_iff.mp hrooted
      refine ⟨"::", Or.inr rfl, ?_⟩
      rw [adapterSegments_rooted, intercalate_map_scopeSegments, String.ofList_toList]
  | false =>
      refine ⟨"", Or.inl rfl, ?_⟩
      rw [adapterSegments_unrooted hrooted, intercalate_map_scopeSegments, String.ofList_toList,
        String.empty_append]

section Joined

variable {segments : List String} (hne : segments ≠ [])
  (hsegments : ∀ segment ∈ segments, isIdentifier segment = true)
include hne hsegments

theorem scopeSegments_joined :
    scopeSegments ("::".intercalate segments).toList = segments.map String.toList := by
  rw [String.toList_intercalate, scopeSegments_intercalate (by simpa using hne)]
  intro chars hchars
  obtain ⟨segment, hsegment, rfl⟩ := List.mem_map.mp hchars
  exact colon_not_mem_of_isIdentifier (hsegments segment hsegment)

/-- Joined identifiers do not begin with a scope operator, since the first segment is not empty. -/
theorem isRooted_joined : isRooted ("::".intercalate segments) = false := by
  rw [← Bool.not_eq_true, isRooted_iff]
  rintro ⟨rest, hrest⟩
  have hparts := scopeSegments_joined hne hsegments
  rw [hrest, String.toList_append, scopeSegments_scope] at hparts
  obtain ⟨first, others, rfl⟩ := List.exists_cons_of_ne_nil hne
  have hfirst := hsegments first List.mem_cons_self
  rw [List.map_cons, List.cons.injEq] at hparts
  rw [String.toList_eq_nil_iff.mp hparts.1.symm] at hfirst
  cases hfirst

/-- Joined identifiers come back as the segments, whether a scope operator was put in front of them
or not. -/
theorem adapterSegments_joined {front : String} (hfront : front = "" ∨ front = "::") :
    adapterSegments (front ++ "::".intercalate segments) = segments := by
  have htexts : (scopeSegments ("::".intercalate segments).toList).map String.ofList = segments := by
    rw [scopeSegments_joined hne hsegments]
    simp
  rcases hfront with rfl | rfl
  · rw [String.empty_append, adapterSegments_unrooted (isRooted_joined hne hsegments), htexts]
  · rw [adapterSegments_rooted, htexts]

end Joined

theorem adapterSegments_ne_nil (adapter : String) : adapterSegments adapter ≠ [] := by
  rw [adapterSegments, Ne, List.map_eq_nil_iff]
  exact scopeSegments_ne_nil _

/-- The check accepts the qualified names and nothing else. -/
theorem checkAdapter_eq_ok_iff {adapter : String} :
    checkAdapter adapter = .ok () ↔ IsQualifiedName adapter := by
  have hcheck : checkAdapter adapter = .ok () ↔
      ∀ segment ∈ adapterSegments adapter, isIdentifier segment = true := by
    rw [checkAdapter, ← List.all_eq_true]
    split <;> simp_all
  rw [hcheck]
  constructor
  · intro hsegments
    obtain ⟨front, hfront, hadapter⟩ := exists_eq_append_adapterSegments adapter
    exact ⟨front, adapterSegments adapter, hfront, adapterSegments_ne_nil adapter, hsegments,
      hadapter⟩
  · rintro ⟨front, segments, hfront, hne, hsegments, rfl⟩
    rwa [adapterSegments_joined hne hsegments hfront]

/-! ## The first segment -/

/-- A qualified name without a scope operator in front has `head` for its first segment. -/
def BeginsWithSegment (adapter head : String) : Prop :=
  ∃ segments : List String, (∀ segment ∈ head :: segments, isIdentifier segment = true) ∧
    adapter = "::".intercalate (head :: segments)

theorem BeginsWithSegment.isIdentifier {adapter head : String}
    (h : BeginsWithSegment adapter head) : isIdentifier head = true := by
  obtain ⟨segments, hsegments, -⟩ := h
  exact hsegments head List.mem_cons_self

/-- Behind the first segment the name ends or a scope operator follows. -/
theorem BeginsWithSegment.eq_or_exists_eq_append {adapter head : String}
    (h : BeginsWithSegment adapter head) : adapter = head ∨ ∃ rest, adapter = head ++ "::" ++ rest := by
  obtain ⟨segments, -, rfl⟩ := h
  cases segments with
  | nil => exact Or.inl (by simp)
  | cons next segments => exact Or.inr ⟨"::".intercalate (next :: segments), by simp⟩

theorem isRooted_append_of_isIdentifier {name : String} (h : isIdentifier name = true)
    (rest : String) : isRooted (name ++ rest) = false := by
  obtain ⟨c, cs, hname, -, -⟩ := isIdentifier_iff.mp h
  have hcolon := colon_not_mem_of_isIdentifier h
  rw [hname, List.mem_cons, not_or] at hcolon
  rw [← Bool.not_eq_true, isRooted_iff]
  rintro ⟨other, hother⟩
  have hlist := congrArg String.toList hother
  rw [String.toList_append, hname, String.toList_append] at hlist
  exact hcolon.1 (List.head_eq_of_cons_eq hlist).symm

/-- An identifier that is the whole of an adapter, or that a scope operator follows, is what the
adapter is looked up by. -/
theorem adapterHead?_of_isIdentifier {adapter head : String} (h : isIdentifier head = true)
    (hadapter : adapter = head ∨ ∃ rest, adapter = head ++ "::" ++ rest) :
    adapterHead? adapter = some head := by
  have hcolon := colon_not_mem_of_isIdentifier h
  rcases hadapter with rfl | ⟨rest, rfl⟩
  · have hrooted : isRooted adapter = false := by
      simpa using isRooted_append_of_isIdentifier h ""
    rw [adapterHead?, hrooted, scopeSegments_of_not_mem hcolon]
    simp
  · have hrooted : isRooted (head ++ "::" ++ rest) = false := by
      rw [String.append_assoc]
      exact isRooted_append_of_isIdentifier h _
    rw [adapterHead?, hrooted, String.toList_append, String.toList_append, List.append_assoc,
      scopeSegments_append hcolon]
    simp

theorem BeginsWithSegment.adapterHead?_eq {adapter head : String}
    (h : BeginsWithSegment adapter head) : adapterHead? adapter = some head :=
  adapterHead?_of_isIdentifier h.isIdentifier h.eq_or_exists_eq_append

/-- An accepted adapter that is looked up from where it is used has a first segment. -/
theorem exists_beginsWithSegment_of_checkAdapter {adapter : String}
    (h : checkAdapter adapter = .ok ()) (hrooted : ¬ ∃ rest, adapter = "::" ++ rest) :
    ∃ head, BeginsWithSegment adapter head := by
  obtain ⟨front, segments, hfront, hne, hsegments, hadapter⟩ := checkAdapter_eq_ok_iff.mp h
  rcases hfront with rfl | rfl
  · obtain ⟨head, others, rfl⟩ := List.exists_cons_of_ne_nil hne
    exact ⟨head, others, hsegments, by rw [hadapter, String.empty_append]⟩
  · exact absurd ⟨_, hadapter⟩ hrooted

/-! ## A name in its parts -/

/-- The parts of a qualified name. There is always a first segment, and every segment is an
identifier. -/
structure NameParts where
  /-- Whether a scope operator stands in front. -/
  rooted : Bool
  first : String
  /-- The segments behind the first. -/
  others : List String
  isIdentifier : ∀ segment ∈ first :: others, isIdentifier segment = true

namespace NameParts

/-- What stands in front of the first segment. -/
def front (parts : NameParts) : String :=
  if parts.rooted then "::" else ""

/-- The name as it is written. -/
def text (parts : NameParts) : String :=
  parts.front ++ "::".intercalate (parts.first :: parts.others)

theorem front_eq_or (parts : NameParts) : parts.front = "" ∨ parts.front = "::" := by
  rw [front]
  cases parts.rooted with
  | true => exact Or.inr rfl
  | false => exact Or.inl rfl

theorem text_of_rooted_eq_false {parts : NameParts} (h : parts.rooted = false) :
    parts.text = "::".intercalate (parts.first :: parts.others) := by
  rw [text, front, h, if_neg Bool.false_ne_true, String.empty_append]

theorem isRooted_text (parts : NameParts) : isRooted parts.text = parts.rooted := by
  cases hrooted : parts.rooted with
  | true =>
      rw [isRooted_iff, text, front, hrooted, if_pos rfl]
      exact ⟨_, rfl⟩
  | false =>
      rw [text_of_rooted_eq_false hrooted]
      exact isRooted_joined (List.cons_ne_nil _ _) parts.isIdentifier

theorem adapterSegments_text (parts : NameParts) :
    adapterSegments parts.text = parts.first :: parts.others :=
  adapterSegments_joined (List.cons_ne_nil _ _) parts.isIdentifier parts.front_eq_or

/-- A name can be taken apart in one way only. -/
theorem text_injective : Function.Injective text := by
  intro parts other h
  have hrooted : parts.rooted = other.rooted := by
    rw [← isRooted_text, h, isRooted_text]
  have hsegments : parts.first :: parts.others = other.first :: other.others := by
    rw [← adapterSegments_text, h, adapterSegments_text]
  cases parts with
  | mk rooted first others _ =>
      cases other with
      | mk rooted' first' others' _ =>
          obtain ⟨rfl, rfl⟩ := List.cons.inj hsegments
          obtain rfl : rooted = rooted' := hrooted
          rfl

/-- What an adapter is looked up by is its first segment, unless it is looked up from the global
scope. -/
theorem adapterHead?_text (parts : NameParts) :
    adapterHead? parts.text = if parts.rooted then none else some parts.first := by
  cases hrooted : parts.rooted with
  | true => rw [adapterHead?, isRooted_text, hrooted, if_pos rfl, if_pos rfl]
  | false =>
      have hbegins : BeginsWithSegment parts.text parts.first :=
        ⟨parts.others, parts.isIdentifier, text_of_rooted_eq_false hrooted⟩
      rw [hbegins.adapterHead?_eq, if_neg Bool.false_ne_true]

end NameParts

/-- The names that can be taken apart are the qualified names. -/
theorem isQualifiedName_iff_exists_parts {adapter : String} :
    IsQualifiedName adapter ↔ ∃ parts : NameParts, parts.text = adapter := by
  constructor
  · rintro ⟨front, segments, hfront, hne, hsegments, rfl⟩
    obtain ⟨first, others, rfl⟩ := List.exists_cons_of_ne_nil hne
    rcases hfront with rfl | rfl
    · exact ⟨⟨false, first, others, hsegments⟩, rfl⟩
    · exact ⟨⟨true, first, others, hsegments⟩, rfl⟩
  · rintro ⟨parts, rfl⟩
    exact ⟨parts.front, parts.first :: parts.others, parts.front_eq_or, List.cons_ne_nil _ _,
      parts.isIdentifier, rfl⟩

/-- The check accepts what can be taken apart into identifiers, which can be done in one way. A
parameter stands in the way of a name without a scope operator in front if it is called like the
proxy or like the first of these identifiers. -/
theorem checkAdapter_accepts_unique_parts (adapter : String) :
    (checkAdapter adapter = .ok () ↔ ∃ parts : NameParts, parts.text = adapter) ∧
      (∀ parts other : NameParts, parts.text = adapter → other.text = adapter → parts = other) ∧
      ∀ parts : NameParts, parts.text = adapter → parts.rooted = false →
        adapterHead? adapter = some parts.first ∧
          ∀ parameters, shadowedParameter? adapter parameters =
            parameters.find? fun p => p.name == proxyName || p.name == parts.first := by
  refine ⟨checkAdapter_eq_ok_iff.trans isQualifiedName_iff_exists_parts, ?_, ?_⟩
  · intro parts other hparts hother
    exact NameParts.text_injective (hparts.trans hother.symm)
  · rintro parts rfl hrooted
    have hhead : adapterHead? parts.text = some parts.first := by
      rw [parts.adapterHead?_text, hrooted, if_neg Bool.false_ne_true]
    refine ⟨hhead, fun parameters => ?_⟩
    rw [shadowedParameter?, hhead]
    rfl

/-- An adapter in two namespaces, and a parameter with the name of the outer one. -/
theorem checkAdapter_accepts_unique_parts_scoped :
    let parts : NameParts := ⟨false, "cache", ["lru", "memoize"], by decide⟩
    let adapter := "cache::lru::memoize"
    parts.text = adapter ∧ parts.rooted = false ∧ checkAdapter adapter = .ok () ∧
      (∀ other : NameParts, other.text = adapter → other = parts) ∧
      adapterHead? adapter = some "cache" ∧
      shadowedParameter? adapter [⟨"lru", "int"⟩, ⟨"cache", "int"⟩] = some ⟨"cache", "int"⟩ := by
  intro parts adapter
  have htext : parts.text = adapter := by decide
  obtain ⟨haccepts, hunique, hhead⟩ := checkAdapter_accepts_unique_parts adapter
  obtain ⟨hfirst, hshadowed⟩ := hhead parts htext rfl
  exact ⟨htext, rfl, haccepts.mpr ⟨parts, htext⟩, fun other hother => hunique other parts hother htext,
    hfirst, hshadowed _⟩

end CachedCalls
