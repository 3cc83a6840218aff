/-
# Where a planned definition stands

Planning a definition runs four checks against the source, each of which reads
a different slice of it. No check alone says that the offsets of a definition
are usable, but together they do: the footprint fixes the two outer offsets,
the parameter list fixes the end of the name, and the body and the name put all
of them in ascending order. This module inverts the checks of a record, which
need no source, and those of a definition one by one, inverts the whole plan,
and collects what a successful plan says about the offsets.
-/

import CachedCalls.Plan
import CachedCalls.Proofs.Text.Slice
import Mathlib.Tactic.SplitIfs

namespace CachedCalls

open Text

/-- A computation that can be rejected succeeds exactly when both of its steps
do. Rejections are peeled off with this lemma instead of unfolding the monad. -/
theorem bind_eq_ok_iff {ε α β : Type} {x : Except ε α} {f : α → Except ε β} {b : β} :
    (x >>= f) = .ok b ↔ ∃ a, x = .ok a ∧ f a = .ok b := by
  cases x with
  | error e => simp [bind, Except.bind]
  | ok a => simp [bind, Except.bind]

namespace TaggedFunction

/-! ## Records that become definitions -/

/-- The definition a record becomes if its body is known and no check fails. -/
def definitionWith (f : TaggedFunction) (body : Span) : Definition where
  name := f.name
  returnType := trim f.returnType
  parameters := f.parameters
  declarationStart := f.declarationStart
  nameEnd := f.nameEnd
  body := body
  line := f.line

/-- Everything the checks of a record establish, and nothing else decides. -/
theorem toDefinition_eq_ok_iff {f : TaggedFunction} {d : Definition} :
    f.toDefinition = .ok d ↔
      ∃ body, f.body = some body ∧ isIdentifier f.name = true ∧
        f.declarationStart < body.start ∧ f.declarationStart ≤ f.nameEnd ∧
        f.nameEnd ≤ body.start ∧ body.start < body.stop ∧
        (trim f.returnType).isEmpty = false ∧ f.compileTimeSpecifier? = none ∧
        f.unnamedParameter? = none ∧ d = f.definitionWith body := by
  constructor
  · intro h
    unfold toDefinition at h
    cases hbody : f.body with
    | none => simp [hbody] at h
    | some body =>
        simp only [hbody] at h
        split_ifs at h with hname hstart hend hempty hreturn
        cases hspecifier : f.compileTimeSpecifier? with
        | some specifier => simp [hspecifier] at h
        | none =>
            cases hparameter : f.unnamedParameter? with
            | some position => simp [hspecifier, hparameter] at h
            | none =>
                simp only [hspecifier, hparameter] at h
                cases h
                rw [not_or] at hend
                exact ⟨body, rfl, by simpa using hname, by omega, by omega, by omega, by omega,
                  by simpa using hreturn, rfl, rfl, rfl⟩
  · rintro ⟨body, hbody, hname, hstart, hfirst, hlast, hempty, hreturn, hspecifier, hparameter, rfl⟩
    have hend : ¬ (f.nameEnd < f.declarationStart ∨ body.start < f.nameEnd) := by omega
    simp [toDefinition, hbody, hname, hreturn, hspecifier, hparameter, definitionWith,
      Nat.not_le.mpr hstart, Nat.not_le.mpr hempty, hend]

/-- A record with a plain name whose offsets ascend is turned away for its
signature only. -/
theorem eq_unsupportedSignature_of_toDefinition {f : TaggedFunction} {body : Span}
    {rejection : Rejection} (hbody : f.body = some body) (hname : isIdentifier f.name = true)
    (hstart : f.declarationStart < body.start) (hfirst : f.declarationStart ≤ f.nameEnd)
    (hlast : f.nameEnd ≤ body.start) (hnonempty : body.start < body.stop)
    (h : f.toDefinition = .error rejection) :
    ∃ reason, rejection = ⟨f.name, .unsupportedSignature reason⟩ := by
  have hend : ¬ (f.nameEnd < f.declarationStart ∨ body.start < f.nameEnd) := by omega
  simp only [toDefinition, hbody, hname, Bool.not_true, Bool.false_eq_true, if_false,
    if_neg (Nat.not_le.mpr hstart), if_neg hend, if_neg (Nat.not_le.mpr hnonempty)] at h
  split_ifs at h
  · cases h
    exact ⟨_, rfl⟩
  · split at h
    · cases h
      exact ⟨_, rfl⟩
    · cases h
      exact ⟨_, rfl⟩
    · cases h

end TaggedFunction

namespace Definition

/-! ## The checks against the source -/

theorem checkBody_eq_ok_iff {d : Definition} {source : String} :
    d.checkBody source = .ok () ↔
      ∃ whole body, d.footprint.slice? source = some whole ∧
        d.body.slice? source = some body ∧
        body.toList.head? = some '\x7b' ∧ body.toList.getLast? = some '\x7d' := by
  unfold checkBody unresolvable
  cases hwhole : d.footprint.slice? source with
  | none => simp
  | some whole =>
      cases hbody : d.body.slice? source with
      | none => simp
      | some body => simp

theorem checkName_eq_ok_iff {d : Definition} {source : String} :
    d.checkName source = .ok () ↔
      d.declarationStart + size d.name ≤ d.nameEnd ∧
        Span.slice? ⟨d.nameEnd - size d.name, d.nameEnd⟩ source = some d.name := by
  unfold checkName unresolvable nameText?
  by_cases hroom : d.declarationStart + size d.name ≤ d.nameEnd
  · rw [if_pos hroom]
    cases hname : Span.slice? ⟨d.nameEnd - size d.name, d.nameEnd⟩ source with
    | none => simp
    | some text => simp [hroom]
  · simp [hroom]

theorem parameterList_eq_ok_iff {d : Definition} {source text : String} :
    d.parameterList source = .ok text ↔
      ∃ raw, d.parameterListSpan.slice? source = some raw ∧ text = trimEnd raw ∧
        (trimLeft text.toList).head? = some '(' ∧ (Lexical.closingParen? text).isSome := by
  unfold parameterList unresolvable
  cases hraw : d.parameterListSpan.slice? source with
  | none => simp
  | some raw =>
      simp only [Option.some.injEq, exists_eq_left']
      constructor
      · intro h
        split_ifs at h with hopen hclose
        · cases h
          exact ⟨rfl, by simpa using hopen, by simpa [Option.isSome_iff_ne_none] using hclose⟩
      · rintro ⟨rfl, hopen, hclose⟩
        rw [if_neg (by simpa using hopen), if_neg (by simpa [Option.isSome_iff_ne_none] using hclose)]

/-! ## The plan -/

/-- The plan of a definition once its parameter list has been read. It depends
on the source through that text alone. -/
def planWith (d : Definition) (adapter parameterList : String) : Plan :=
  let prototype := CachedCalls.prototype d.returnType d.name parameterList
  let mangled := CachedCalls.mangledName d.name
  let wrapper := CachedCalls.wrapper adapter prototype mangled d.parameters
  { function := d.name
    line := d.line
    mangledName := mangled
    prototype := prototype
    wrapper := wrapper
    rename := .replace d.renameSpan (d.returnType ++ " " ++ mangled)
    wrapperInsertion := .insertAfter d.body.stop ("\n\n" ++ wrapper)
    forwardDeclaration := .insertBefore d.declarationStart (prototype ++ ";\n")
    footprint := d.footprint }

theorem planRename_eq_ok_iff {d : Definition} {source : String} {symbols : SymbolTable}
    {rename : Rename} :
    d.planRename source symbols = .ok rename ↔
      d.checkName source = .ok () ∧ symbols.contains (CachedCalls.mangledName d.name) = false ∧
        rename = ⟨CachedCalls.mangledName d.name,
          .replace d.renameSpan (d.returnType ++ " " ++ CachedCalls.mangledName d.name)⟩ := by
  rw [planRename, bind_eq_ok_iff]
  dsimp only
  cases hfree : symbols.contains (CachedCalls.mangledName d.name) with
  | true => simp [throw, throwThe, MonadExceptOf.throw, bind, Except.bind]
  | false =>
      constructor
      · rintro ⟨⟨⟩, hname, hrename⟩
        cases hrename
        exact ⟨hname, rfl, rfl⟩
      · rintro ⟨hname, -, rfl⟩
        exact ⟨(), hname, rfl⟩

/-- Everything a successful plan establishes, and nothing else decides it. -/
theorem plan_eq_ok_iff {d : Definition} {source adapter : String} {symbols : SymbolTable}
    {plan : Plan} :
    d.plan source symbols adapter = .ok plan ↔
      d.checkBody source = .ok () ∧ shadowedParameter? adapter d.parameters = none ∧
        d.checkName source = .ok () ∧
        symbols.contains (CachedCalls.mangledName d.name) = false ∧
        ∃ parameterList, d.parameterList source = .ok parameterList ∧
          plan = d.planWith adapter parameterList := by
  unfold Definition.plan Definition.prototype
  rw [bind_eq_ok_iff]
  cases hshadow : shadowedParameter? adapter d.parameters with
  | some parameter => simp [throw, throwThe, MonadExceptOf.throw, bind, Except.bind]
  | none =>
      simp only [bind_eq_ok_iff, planRename_eq_ok_iff]
      constructor
      · rintro ⟨⟨⟩, hbody, _, ⟨parameterList, hlist, hprototype⟩, _, ⟨hname, hfree, rfl⟩, hplan⟩
        cases hprototype
        cases hplan
        exact ⟨hbody, trivial, hname, hfree, parameterList, hlist, rfl⟩
      · rintro ⟨hbody, -, hname, hfree, parameterList, hlist, rfl⟩
        exact ⟨(), hbody, _, ⟨parameterList, hlist, rfl⟩, _, ⟨hname, hfree, rfl⟩, rfl⟩

theorem eq_planWith_of_plan {d : Definition} {source adapter : String} {symbols : SymbolTable}
    {plan : Plan} (h : d.plan source symbols adapter = .ok plan) :
    ∃ parameterList, plan = d.planWith adapter parameterList := by
  obtain ⟨-, -, -, -, parameterList, -, heq⟩ := plan_eq_ok_iff.mp h
  exact ⟨parameterList, heq⟩

/-! ## Offsets of a planned definition -/

/-- The offsets of a definition fit a source: they ascend, the body holds at
least one byte, and each offset an edit refers to can be cut at. -/
structure Placed (d : Definition) (source : String) : Prop where
  start_le_nameEnd : d.declarationStart ≤ d.nameEnd
  nameEnd_le_body : d.nameEnd ≤ d.body.start
  body_nonempty : d.body.start < d.body.stop
  start_isBoundary : isBoundary source d.declarationStart = true
  nameEnd_isBoundary : isBoundary source d.nameEnd = true
  stop_isBoundary : isBoundary source d.body.stop = true

theorem Placed.start_lt_stop {d : Definition} {source : String} (h : d.Placed source) :
    d.declarationStart < d.body.stop := by
  have hname := h.start_le_nameEnd
  have hbody := h.nameEnd_le_body
  have hnonempty := h.body_nonempty
  omega

theorem Placed.nameEnd_le_stop {d : Definition} {source : String} (h : d.Placed source) :
    d.nameEnd ≤ d.body.stop :=
  Nat.le_trans h.nameEnd_le_body (Nat.le_of_lt h.body_nonempty)

/-- The four checks establish every offset fact the edits of a plan rely on. -/
theorem placed_of_plan {d : Definition} {source adapter : String} {symbols : SymbolTable}
    {plan : Plan} (h : d.plan source symbols adapter = .ok plan) : d.Placed source := by
  obtain ⟨hbody, -, hname, -, parameterList, hlist, -⟩ := plan_eq_ok_iff.mp h
  obtain ⟨whole, body, hwhole, hbody, hopen, -⟩ := checkBody_eq_ok_iff.mp hbody
  obtain ⟨hroom, -⟩ := checkName_eq_ok_iff.mp hname
  obtain ⟨raw, hraw, -, -, -⟩ := parameterList_eq_ok_iff.mp hlist
  -- A body that starts with a brace is not empty.
  have hpos : 0 < size body := size_pos_iff.mpr (by rintro rfl; simp at hopen)
  have hsize := Span.size_of_slice? hbody
  exact {
    start_le_nameEnd := by omega
    nameEnd_le_body := Span.start_le_stop_of_slice? hraw
    body_nonempty := by omega
    start_isBoundary := Span.isBoundary_start_of_slice? hwhole
    nameEnd_isBoundary := Span.isBoundary_start_of_slice? hraw
    stop_isBoundary := Span.isBoundary_stop_of_slice? hbody }

end Definition

end CachedCalls
