/-
# Laid out arrays and objects read back

An array or an object is read by a loop that hands every element or member to a
step. This module says what the loop makes of a text that was laid out: if each
step reads the value it is given, the loop reads all of them, one after the
other, and stops in front of the closing character. What a step does with a value
is left open, so that values that are kept and typed data are both covered.
-/

import CachedCalls.Proofs.Json.Token

namespace CachedCalls

namespace Reader

open Json

variable {σ : Type}

/-! ## Gaps and the ends of values -/

theorem allGap_newline (level : Nat) : AllGap (newline level) := by
  intro c hc
  rw [newline, List.mem_cons] at hc
  rcases hc with rfl | hc
  · rfl
  · rw [List.eq_of_mem_replicate hc]
    rfl

theorem length_newline_append_pos (level : Nat) (cs : List Char) :
    0 < (newline level ++ cs).length :=
  Nat.succ_pos _

theorem endsValue_cons {c : Char} (h : c = ',' ∨ c = '\n') (rest : List Char) :
    EndsValue (c :: rest) := by
  intro d hd
  cases hd
  exact h

theorem endsValue_nil : EndsValue [] := by
  intro c hc
  cases hc

theorem get_apply (cs : List Char) : (get : Reader (List Char)) cs = .ok (cs, cs) := rfl

/-! ## Arrays -/

/-- How the text of a value begins: not with a gap and not with the end of an array. -/
def StartsValue (cs : List Char) : Prop :=
  ∃ c, cs.head? = some c ∧ isGap c = false ∧ c ≠ ']'

/-- Going through elements, each step reads the element it comes to. -/
inductive ElementsRead (step : σ → Reader σ) (level : Nat) : σ → List Json → σ → Prop
  | nil (state : σ) : ElementsRead step level state [] state
  | cons {state next final : σ} {element : Json} {later : List Json}
      (starts : StartsValue (render level element))
      (reads : Reads (step state) (render level element) next)
      (rest : ElementsRead step level next later final) :
      ElementsRead step level state (element :: later) final

theorem endsValue_renderElements (level outer : Nat) (elements : List Json) (rest : List Char) :
    EndsValue (renderElements level elements ++ (newline outer ++ rest)) := by
  cases elements with
  | nil => exact endsValue_cons (Or.inr rfl) _
  | cons element later =>
      simp only [renderElements, List.cons_append]
      exact endsValue_cons (Or.inl rfl) _

theorem length_le_renderElements (level : Nat) (elements : List Json) :
    elements.length ≤ (renderElements level elements).length := by
  induction elements with
  | nil => simp
  | cons element later ih =>
      simp only [renderElements, List.length_cons, List.length_append]
      omega

theorem hasElement_first {gap cs : List Char} (hgap : AllGap gap) (hstarts : StartsValue cs)
    (rest : List Char) : hasElement true (gap ++ (cs ++ rest)) = .ok (true, cs ++ rest) := by
  obtain ⟨c, hhead, hc, hclose⟩ := hstarts
  rw [hasElement, bind_of_ok (peek_of_allGap hgap (head?_append_of_head? hhead) hc)]
  simp only [hclose]
  rfl

theorem hasElement_comma {gap cs : List Char} (hgap : AllGap gap) (hstarts : StartsValue cs)
    (rest : List Char) :
    hasElement false (',' :: (gap ++ (cs ++ rest))) = .ok (true, cs ++ rest) := by
  obtain ⟨c, hhead, hc, hclose⟩ := hstarts
  have hpeek : peek (gap ++ (cs ++ rest)) = .ok (some c, cs ++ rest) :=
    peek_of_allGap hgap (head?_append_of_head? hhead) hc
  rw [hasElement, bind_of_ok (peek_of_head? rfl (by decide))]
  simp only [Char.reduceEq, reduceIte, Bool.false_eq_true, bind_of_ok (advance_cons _ _),
    bind_of_ok hpeek, hclose]
  rfl

theorem hasElement_close {gap : List Char} (hgap : AllGap gap) (first : Bool)
    (rest : List Char) : hasElement first (gap ++ ']' :: rest) = .ok (false, ']' :: rest) := by
  rw [hasElement, bind_of_ok (peek_of_allGap hgap rfl (by decide))]
  rfl

/-- One round of the loop: a step takes an element. -/
theorem foldElements_of_element {step : σ → Reader σ} {bound cs rest later : List Char}
    {first : Bool} {state next : σ} (hbound : 0 < bound.length)
    (hmore : hasElement first cs = .ok (true, rest)) (hstep : step state rest = .ok (next, later)) :
    foldElements step bound first state cs = foldElements step bound.tail false next later := by
  cases bound with
  | nil => cases hbound
  | cons _ bound =>
      rw [foldElements, bind_of_ok hmore, if_pos rfl, bind_of_ok hstep]
      rfl

/-- The last round of the loop. -/
theorem foldElements_of_end {step : σ → Reader σ} {bound cs rest : List Char} {first : Bool}
    {state : σ} (hbound : 0 < bound.length) (hnone : hasElement first cs = .ok (false, rest)) :
    foldElements step bound first state cs = .ok (state, rest) := by
  cases bound with
  | nil => cases hbound
  | cons _ bound =>
      rw [foldElements, bind_of_ok hnone]
      rfl

/-- The loop behind the first element. The bound is large enough if it has a character for every
element and one more. -/
theorem foldElements_renderElements {step : σ → Reader σ} {level : Nat} {state final : σ}
    {elements : List Json} (h : ElementsRead step level state elements final)
    {bound : List Char} (hbound : elements.length < bound.length) (outer : Nat)
    (rest : List Char) :
    foldElements step bound false state
      (renderElements level elements ++ (newline outer ++ ']' :: rest)) =
        .ok (final, ']' :: rest) := by
  -- Each round takes one element and one character of the bound.
  induction h generalizing bound with
  | nil state =>
      exact foldElements_of_end hbound (hasElement_close (allGap_newline outer) false rest)
  | @cons state next final element later hstarts hreads hlater ih =>
      rw [List.length_cons] at hbound
      have htail : later.length < bound.tail.length := by
        rw [List.length_tail]
        omega
      rw [← ih htail]
      simp only [renderElements, List.append_assoc, List.cons_append]
      exact foldElements_of_element (by omega)
        (hasElement_comma (allGap_newline level) hstarts _)
        (hreads.apply (endsValue_renderElements level outer later _))

/-- The loop over all elements, behind the opening bracket. It is bounded by the text itself. -/
theorem foldElements_render {step : σ → Reader σ} {level : Nat} {state final : σ}
    {elements : List Json} (h : ElementsRead step (level + 1) state elements final)
    (rest : List Char) :
    ∃ body, render level (.array elements) ++ rest = '[' :: body ∧
      foldElements step body true state body = .ok (final, ']' :: rest) := by
  cases h with
  | nil state =>
      refine ⟨']' :: rest, rfl, ?_⟩
      exact foldElements_of_end (Nat.succ_pos _)
        (hasElement_close (List.forall_mem_nil _) true rest)
  | @cons _ next _ element later hstarts hreads hlater =>
      refine ⟨newline (level + 1) ++ (render (level + 1) element ++
        (renderElements (level + 1) later ++ (newline level ++ ']' :: rest))), ?_, ?_⟩
      · simp [render]
      · have hlength := length_le_renderElements (level + 1) later
        rw [foldElements_of_element (length_newline_append_pos _ _)
          (hasElement_first (allGap_newline (level + 1)) hstarts _)
          (hreads.apply (endsValue_renderElements (level + 1) level later _))]
        apply foldElements_renderElements hlater
        simp only [newline, List.length_tail, List.length_append, List.length_cons]
        omega

theorem closeList_apply (rest : List Char) : closeList (']' :: rest) = .ok ((), rest) := by
  rw [closeList, bind_of_ok (peek_of_head? rfl (by decide))]
  rfl

/-- An array is read from its opening to its closing bracket. -/
theorem listOf_render {step : σ → Reader σ} {level : Nat} {state final : σ}
    {elements : List Json} (h : ElementsRead step (level + 1) state elements final)
    (rest : List Char) :
    listOf step state (render level (.array elements) ++ rest) = .ok (final, rest) := by
  obtain ⟨body, hbody, hfold⟩ := foldElements_render h rest
  rw [hbody, listOf, bind_of_ok (advance_cons _ _), bind_of_ok (get_apply _), bind_of_ok hfold,
    bind_of_ok (closeList_apply rest)]
  rfl

/-- Collecting what a reader makes of each element, last first. -/
theorem elementsRead_collect {α : Type} {element : Reader α} {toJson : α → Json} {level : Nat}
    {items : List α} (hstarts : ∀ a ∈ items, StartsValue (render level (toJson a)))
    (hreads : ∀ a ∈ items, Reads element (render level (toJson a)) a) (done : List α) :
    ElementsRead (fun done => return (← element) :: done) level done (items.map toJson)
      (items.reverse ++ done) := by
  induction items generalizing done with
  | nil => exact .nil done
  | cons a items ih =>
      rw [List.forall_mem_cons] at hstarts hreads
      rw [List.map_cons, List.reverse_cons, List.append_assoc]
      exact .cons hstarts.1 (hreads.1.map (· :: done)) (ih hstarts.2 hreads.2 (a :: done))

/-! ## Objects -/

/-- Going through members, each step is given the name of the member it comes to and reads the
rest of it, from the colon on. -/
inductive MembersRead (step : σ → String → Reader σ) (level : Nat) :
    σ → List (String × Json) → σ → Prop
  | nil (state : σ) : MembersRead step level state [] state
  | cons {state next final : σ} {name : String} {value : Json} {later : List (String × Json)}
      (reads : Reads (step state name) (':' :: ' ' :: render level value) next)
      (rest : MembersRead step level next later final) :
      MembersRead step level state ((name, value) :: later) final

theorem endsValue_renderMembers (level outer : Nat) (members : List (String × Json))
    (rest : List Char) : EndsValue (renderMembers level members ++ (newline outer ++ rest)) := by
  cases members with
  | nil => exact endsValue_cons (Or.inr rfl) _
  | cons member later =>
      simp only [renderMembers, List.cons_append]
      exact endsValue_cons (Or.inl rfl) _

theorem length_le_renderMembers (level : Nat) (members : List (String × Json)) :
    members.length ≤ (renderMembers level members).length := by
  induction members with
  | nil => simp
  | cons member later ih =>
      simp only [renderMembers, List.length_cons, List.length_append]
      omega

theorem peek_renderString {gap : List Char} (hgap : AllGap gap) (name : String)
    (rest : List Char) :
    peek (gap ++ (renderString name ++ rest)) = .ok (some '"', renderString name ++ rest) :=
  peek_of_allGap hgap rfl (by decide)

theorem nextKey_first {gap : List Char} (hgap : AllGap gap) (name : String) (rest : List Char) :
    nextKey true (gap ++ (renderString name ++ rest)) = .ok (some name, rest) := by
  rw [nextKey, bind_of_ok (peek_renderString hgap name rest)]
  exact bind_of_ok (quoted_renderString name rest)

theorem nextKey_comma {gap : List Char} (hgap : AllGap gap) (name : String) (rest : List Char) :
    nextKey false (',' :: (gap ++ (renderString name ++ rest))) = .ok (some name, rest) := by
  rw [nextKey, bind_of_ok (peek_of_head? rfl (by decide))]
  dsimp only
  rw [if_neg (by decide), if_neg (by decide), if_pos rfl, bind_of_ok (advance_cons _ _),
    bind_of_ok (peek_renderString hgap name rest)]
  exact bind_of_ok (quoted_renderString name rest)

theorem nextKey_close {gap : List Char} (hgap : AllGap gap) (first : Bool) (rest : List Char) :
    nextKey first (gap ++ '\x7d' :: rest) = .ok (none, '\x7d' :: rest) := by
  rw [nextKey, bind_of_ok (peek_of_allGap hgap rfl (by decide))]
  rfl

/-- One round of the loop: a step takes a member. -/
theorem foldMembers_of_member {step : σ → String → Reader σ} {bound cs rest later : List Char}
    {first : Bool} {state next : σ} {name : String} (hbound : 0 < bound.length)
    (hmore : nextKey first cs = .ok (some name, rest))
    (hstep : step state name rest = .ok (next, later)) :
    foldMembers step bound first state cs = foldMembers step bound.tail false next later := by
  cases bound with
  | nil => cases hbound
  | cons _ bound =>
      rw [foldMembers, bind_of_ok hmore]
      exact bind_of_ok hstep

/-- The last round of the loop. -/
theorem foldMembers_of_end {step : σ → String → Reader σ} {bound cs rest : List Char}
    {first : Bool} {state : σ} (hbound : 0 < bound.length)
    (hnone : nextKey first cs = .ok (none, rest)) :
    foldMembers step bound first state cs = .ok (state, rest) := by
  cases bound with
  | nil => cases hbound
  | cons _ bound =>
      rw [foldMembers, bind_of_ok hnone]
      rfl

/-- The loop behind the first member. -/
theorem foldMembers_renderMembers {step : σ → String → Reader σ} {level : Nat} {state final : σ}
    {members : List (String × Json)} (h : MembersRead step level state members final)
    {bound : List Char} (hbound : members.length < bound.length) (outer : Nat)
    (rest : List Char) :
    foldMembers step bound false state
      (renderMembers level members ++ (newline outer ++ '\x7d' :: rest)) =
        .ok (final, '\x7d' :: rest) := by
  induction h generalizing bound with
  | nil state =>
      exact foldMembers_of_end hbound (nextKey_close (allGap_newline outer) false rest)
  | @cons state next final name value later hreads hlater ih =>
      rw [List.length_cons] at hbound
      have htail : later.length < bound.tail.length := by
        rw [List.length_tail]
        omega
      rw [← ih htail]
      simp only [renderMembers, List.append_assoc, List.cons_append, List.nil_append]
      exact foldMembers_of_member (by omega) (nextKey_comma (allGap_newline level) name _)
        (hreads.apply (endsValue_renderMembers level outer later _))

/-- The loop over all members, behind the opening brace. It is bounded by the text itself. -/
theorem foldMembers_render {step : σ → String → Reader σ} {level : Nat} {state final : σ}
    {members : List (String × Json)} (h : MembersRead step (level + 1) state members final)
    (rest : List Char) :
    ∃ body, render level (.object members) ++ rest = '\x7b' :: body ∧
      foldMembers step body true state body = .ok (final, '\x7d' :: rest) := by
  cases h with
  | nil state =>
      refine ⟨'\x7d' :: rest, rfl, ?_⟩
      exact foldMembers_of_end (Nat.succ_pos _) (nextKey_close (List.forall_mem_nil _) true rest)
  | @cons _ next _ name value later hreads hlater =>
      refine ⟨newline (level + 1) ++ (renderString name ++ ((':' :: ' ' :: render (level + 1) value)
        ++ (renderMembers (level + 1) later ++ (newline level ++ '\x7d' :: rest)))), ?_, ?_⟩
      · simp [render]
      · have hlength := length_le_renderMembers (level + 1) later
        rw [foldMembers_of_member (length_newline_append_pos _ _)
          (nextKey_first (allGap_newline (level + 1)) name _)
          (hreads.apply (endsValue_renderMembers (level + 1) level later _))]
        apply foldMembers_renderMembers hlater
        simp only [newline, List.length_tail, List.length_append, List.length_cons]
        omega

theorem closeObject_apply (rest : List Char) : closeObject ('\x7d' :: rest) = .ok ((), rest) := by
  rw [closeObject, bind_of_ok (peek_of_head? rfl (by decide))]
  rfl

/-- An object is read from its opening to its closing brace. -/
theorem objectOf_render {step : σ → String → Reader σ} {level : Nat} {state final : σ}
    {members : List (String × Json)} (h : MembersRead step (level + 1) state members final)
    (rest : List Char) :
    objectOf step state (render level (.object members) ++ rest) = .ok (final, rest) := by
  obtain ⟨body, hbody, hfold⟩ := foldMembers_render h rest
  rw [hbody, objectOf, bind_of_ok (advance_cons _ _), bind_of_ok (get_apply _), bind_of_ok hfold,
    bind_of_ok (closeObject_apply rest)]
  rfl

/-- Behind the colon a value is read as anywhere else. -/
theorem Reads.colon {α : Type} {reader : Reader α} {cs : List Char} {a : α}
    (h : Reads reader cs a) : Reads (do Reader.colon; reader) (':' :: ' ' :: cs) a := by
  intro gap rest hgap hrest
  have hspace : AllGap [' '] := by simp [AllGap, isGap]
  have hcolon : Reader.colon (gap ++ ':' :: ' ' :: (cs ++ rest)) = .ok ((), ' ' :: (cs ++ rest)) := by
    rw [Reader.colon, bind_of_ok (peek_of_allGap hgap rfl (by decide))]
    rfl
  rw [List.cons_append, List.cons_append, bind_of_ok hcolon]
  exact h [' '] rest hspace hrest

/-- Collecting the members of an object, last first. -/
theorem membersRead_collect {value : Reader Json} {level : Nat} {members : List (String × Json)}
    (hreads : ∀ member ∈ members, Reads value (render level member.2) member.2)
    (done : List (String × Json)) :
    MembersRead (fun done name => do Reader.colon; return (name, ← value) :: done) level done
      members (members.reverse ++ done) := by
  induction members generalizing done with
  | nil => exact .nil done
  | cons member members ih =>
      rw [List.forall_mem_cons] at hreads
      rw [List.reverse_cons, List.append_assoc]
      exact .cons (hreads.1.map fun value => (member.1, value) :: done).colon
        (ih hreads.2 (member :: done))

/-! ## Values -/

/-- Values without fractions and negative numbers, in which at most `depth` arrays and objects are
open at once. -/
inductive Plain : Nat → Json → Prop
  | null (depth : Nat) : Plain depth .null
  | bool (depth : Nat) (b : Bool) : Plain depth (.bool b)
  | number (depth : Nat) {n : Nat} (h : n < UInt64.size) : Plain depth (.ofNat n)
  | string (depth : Nat) (text : String) : Plain depth (.string text)
  | array {depth : Nat} {elements : List Json} (h : ∀ element ∈ elements, Plain depth element) :
      Plain (depth + 1) (.array elements)
  | object {depth : Nat} {members : List (String × Json)}
      (h : ∀ member ∈ members, Plain depth member.2) : Plain (depth + 1) (.object members)

theorem reads_value_of_scalar {depth : Nat} {c : Char} {cs : List Char} {json : Json}
    (hhead : cs.head? = some c) (hgap : isGap c = false) (hlist : c ≠ '[') (hobject : c ≠ '\x7b')
    (h : ∀ rest, EndsValue rest → scalar (cs ++ rest) = .ok (json, rest)) :
    Reads (value depth) cs json := by
  cases depth with
  | zero =>
      unfold value
      apply reads_of_peek hhead hgap
      intro rest hrest
      simpa [hlist, hobject] using h rest hrest
  | succ depth =>
      unfold value
      apply reads_of_peek hhead hgap
      intro rest hrest
      simpa [hlist, hobject] using h rest hrest

theorem scalar_string (text : String) (rest : List Char) :
    scalar (renderString text ++ rest) = .ok (.string text, rest) := by
  rw [scalar, bind_of_ok (peek_of_head? rfl (by decide))]
  exact bind_of_ok (quoted_renderString text rest)

theorem scalar_number {n : Nat} (h : n < UInt64.size) {rest : List Char} (hrest : EndsValue rest) :
    scalar (Nat.toDigits 10 n ++ rest) = .ok (.ofNat n, rest) := by
  obtain ⟨d, hhead, hdigit⟩ := exists_head?_toDigits n
  rw [scalar, bind_of_ok (peek_of_head? (head?_append_of_head? hhead) (isGap_of_isDigit hdigit))]
  dsimp only
  rw [if_neg (ne_of_isDigit hdigit (by decide)), if_neg (ne_of_isDigit hdigit (by decide)),
    if_neg (ne_of_isDigit hdigit (by decide)), if_neg (ne_of_isDigit hdigit (by decide)),
    if_pos (Or.inr hdigit), bind_of_ok (number_toDigits h hrest)]
  rfl

theorem head?_render_array (level : Nat) (elements : List Json) :
    (render level (.array elements)).head? = some '[' := by
  cases elements <;> rfl

theorem head?_render_object (level : Nat) (members : List (String × Json)) :
    (render level (.object members)).head? = some '\x7b' := by
  cases members <;> rfl

theorem startsValue_render_object (level : Nat) (members : List (String × Json)) :
    StartsValue (render level (.object members)) :=
  ⟨'\x7b', head?_render_object level members, by decide, by decide⟩

theorem startsValue_render {depth : Nat} {json : Json} (h : Plain depth json) (level : Nat) :
    StartsValue (render level json) := by
  cases h with
  | null => exact ⟨'n', rfl, by decide, by decide⟩
  | bool depth b => cases b <;> exact ⟨_, rfl, by decide, by decide⟩
  | @number depth n h =>
      obtain ⟨d, hhead, hdigit⟩ := exists_head?_toDigits n
      rw [render_ofNat]
      exact ⟨d, hhead, isGap_of_isDigit hdigit, ne_of_isDigit hdigit (by decide)⟩
  | string depth text => exact ⟨'"', rfl, by decide, by decide⟩
  | array h => exact ⟨'[', head?_render_array level _, by decide, by decide⟩
  | object h => exact startsValue_render_object level _

/-- Every plain value is read back from its layout. -/
theorem reads_value {depth : Nat} {json : Json} (h : Plain depth json) (level : Nat) :
    Reads (value depth) (render level json) json := by
  -- Every value below is laid out one level deeper, and read with one level less to go.
  induction h generalizing level with
  | null depth =>
      exact reads_value_of_scalar rfl (by decide) (by decide) (by decide) fun _ _ => rfl
  | bool depth b =>
      cases b with
      | false => exact reads_value_of_scalar rfl (by decide) (by decide) (by decide) fun _ _ => rfl
      | true => exact reads_value_of_scalar rfl (by decide) (by decide) (by decide) fun _ _ => rfl
  | @number depth n h =>
      obtain ⟨d, hhead, hdigit⟩ := exists_head?_toDigits n
      rw [render_ofNat]
      exact reads_value_of_scalar hhead (isGap_of_isDigit hdigit)
        (ne_of_isDigit hdigit (by decide)) (ne_of_isDigit hdigit (by decide))
        fun rest hrest => scalar_number h hrest
  | string depth text =>
      exact reads_value_of_scalar rfl (by decide) (by decide) (by decide)
        fun rest _ => scalar_string text rest
  | @array depth elements h ih =>
      have hloop := elementsRead_collect
        (fun element helement => startsValue_render (h element helement) (level + 1))
        (fun element helement => ih element helement (level + 1)) []
      rw [List.map_id', List.append_nil] at hloop
      unfold value
      apply reads_of_peek (head?_render_array level elements) (by decide)
      intro rest _
      refine (bind_of_ok (listOf_render hloop rest)).trans ?_
      rw [List.reverse_reverse]
      rfl
  | @object depth members h ih =>
      have hloop := membersRead_collect (fun member hmember => ih member hmember (level + 1)) []
      rw [List.append_nil] at hloop
      unfold value
      apply reads_of_peek (head?_render_object level members) (by decide)
      intro rest _
      refine (bind_of_ok (objectOf_render hloop rest)).trans ?_
      rw [List.reverse_reverse]
      rfl

/-- What reads a whole text reads a text that holds nothing else. -/
theorem run_of_reads {α : Type} {reader : Reader α} {cs : List Char} {a : α}
    (h : Reads reader cs a) : reader.run (String.ofList cs) = .ok a := by
  have hread := h.apply endsValue_nil
  rw [List.append_nil] at hread
  rw [run, String.toList_ofList, bind_of_ok hread]
  rfl

end Reader

/-- Every plain value that is not nested too deeply survives being written and read. -/
theorem Json.parse_pretty {json : Json} (h : Reader.Plain Reader.depthLimit json) :
    Json.parse json.pretty = .ok json :=
  Reader.run_of_reads (Reader.reads_value h 0)

end CachedCalls
