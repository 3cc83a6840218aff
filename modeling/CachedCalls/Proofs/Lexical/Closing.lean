/-
# Open parentheses and the scanner that closes them

The scanner that looks for a closing parenthesis jumps over literals and
comments as a whole, while the machine reads every character. Next to the
context of the place it has reached, the machine can keep the number of
parentheses that stand open there, and so find the closing one without a jump.
It finds what the scanner finds, in every text: each jump leads from the context
in which it starts back into code and passes no parenthesis on the way.

The text up to the closing parenthesis is therefore balanced and can swallow
nothing that follows. What stands behind it is never read by the scanner, so
nothing is known of it, and the balance of the whole text is that of its rest.
-/

import CachedCalls.Proofs.Lexical.Context

namespace CachedCalls.Lexical

open Text

theorem skipLine_cons {c : Char} (h : c ≠ '\n') (cs : List Char) :
    skipLine (c :: cs) = skipLine cs := by
  rw [skipLine, List.dropWhile_cons_of_pos (by simpa using h), skipLine]

namespace Context

/-! ## Open parentheses -/

/-- The number of parentheses that stand open behind one more character, if `depth` of them stand
open in front of it. Only those in code count. There is no such number if one closes that none has
opened. -/
def openStep? (context : Context) (depth : Nat) (c : Char) : Option Nat :=
  if context.isCode = true ∧ c = '(' then some (depth + 1)
  else if context.isCode = true ∧ c = ')' then
    match depth with
    | 0 => none
    | outer + 1 => some outer
  else some depth

/-- The number of parentheses that stand open behind several more characters. -/
def openAfter? (context : Context) (depth : Nat) : List Char → Option Nat
  | [] => some depth
  | c :: cs => (context.openStep? depth c).bind fun inner => (context.step c).openAfter? inner cs

/-- What follows the parenthesis that leaves none open, read character by character. -/
def behindClosing? (context : Context) (depth : Nat) : List Char → Option (List Char)
  | [] => none
  | c :: cs => (context.openStep? depth c).bind fun inner =>
    if depth = 1 ∧ inner = 0 then some cs else (context.step c).behindClosing? inner cs

theorem openStep?_of_not_isCode {context : Context} (h : context.isCode = false) (depth : Nat)
    (c : Char) : context.openStep? depth c = some depth := by
  simp [openStep?, h]

theorem openStep?_of_ne {context : Context} {depth : Nat} {c : Char} (hopen : c ≠ '(')
    (hclose : c ≠ ')') : context.openStep? depth c = some depth := by
  simp [openStep?, hopen, hclose]

/-- The last open parenthesis is closed by a parenthesis in code. -/
theorem eq_of_openStep?_one {context : Context} {c : Char}
    (h : context.openStep? 1 c = some 0) : context.isCode = true ∧ c = ')' := by
  unfold openStep? at h
  split_ifs at h with hopen hclose
  · cases h
  · exact hclose
  · cases h

/-- The parentheses of one text are counted on from those of another in front of it. -/
theorem openAfter?_append (context : Context) (depth : Nat) (cs ds : List Char) :
    context.openAfter? depth (cs ++ ds) =
      (context.openAfter? depth cs).bind fun inner => (context.run cs).openAfter? inner ds := by
  induction cs generalizing context depth with
  | nil => rfl
  | cons c cs ih => simp only [List.cons_append, openAfter?, run_cons, ih, Option.bind_assoc]

/-- The parenthesis at which the machine stops stands in code, and a single one is open there. -/
theorem exists_of_behindClosing? {context : Context} {depth : Nat} {cs rest : List Char}
    (h : context.behindClosing? depth cs = some rest) :
    ∃ taken, cs = taken ++ ')' :: rest ∧ (context.run taken).isCode = true ∧
      context.openAfter? depth taken = some 1 := by
  induction cs generalizing context depth with
  | nil => cases h
  | cons c cs ih =>
      rw [behindClosing?, Option.bind_eq_some_iff] at h
      obtain ⟨inner, hstep, h⟩ := h
      split_ifs at h with hlast
      · obtain ⟨rfl, rfl⟩ := hlast
        obtain ⟨hcode, rfl⟩ := eq_of_openStep?_one hstep
        obtain rfl := Option.some.inj h
        exact ⟨[], rfl, hcode, rfl⟩
      · obtain ⟨taken, rfl, hcode, hopen⟩ := ih h
        exact ⟨c :: taken, rfl, hcode, by rw [openAfter?, hstep, Option.bind_some, hopen]⟩

/-! ## Jumps -/

theorem behindClosing?_cons {context : Context} {depth inner : Nat} {c : Char} (cs : List Char)
    (hstep : context.openStep? depth c = some inner) (hinner : depth = 1 → inner ≠ 0) :
    context.behindClosing? depth (c :: cs) = (context.step c).behindClosing? inner cs := by
  rw [behindClosing?, hstep, Option.bind_some, if_neg (not_and.mpr hinner)]

/-- A character that is no parenthesis in code leaves the count as it is. -/
theorem behindClosing?_cons_of_eq {context : Context} {depth : Nat} {c : Char} (cs : List Char)
    (hstep : context.openStep? depth c = some depth) :
    context.behindClosing? depth (c :: cs) = (context.step c).behindClosing? depth cs :=
  behindClosing?_cons cs hstep fun hone hzero => by omega

theorem behindClosing?_cons_of_not_isCode {context : Context} (h : context.isCode = false)
    (depth : Nat) (c : Char) (cs : List Char) :
    context.behindClosing? depth (c :: cs) = (context.step c).behindClosing? depth cs :=
  behindClosing?_cons_of_eq cs (openStep?_of_not_isCode h depth c)

/-- Nothing closes behind a literal that is left open. -/
theorem behindClosing?_broken (depth : Nat) (cs : List Char) :
    broken.behindClosing? depth cs = none := by
  induction cs with
  | nil => rfl
  | cons c cs ih => rw [behindClosing?_cons_of_not_isCode rfl, step, ih]

theorem behindClosing?_literal (quote : Quote) (depth : Nat) (cs : List Char) :
    (literal quote).behindClosing? depth cs =
      (skipLiteral quote.mark cs).bind ((code false).behindClosing? depth) := by
  fun_induction skipLiteral quote.mark cs with
  | case1 => rfl
  | case2 =>
      rw [behindClosing?_cons_of_not_isCode rfl]
      rfl
  | case3 d cs ih =>
      rw [behindClosing?_cons_of_not_isCode rfl, step, if_pos rfl,
        behindClosing?_cons_of_not_isCode rfl, step, ih]
  | case4 cs hback =>
      rw [behindClosing?_cons_of_not_isCode rfl, step, if_neg hback, if_pos rfl, Option.bind_some]
  | case5 cs hback hmark =>
      rw [behindClosing?_cons_of_not_isCode rfl, step, if_neg hback, if_neg hmark, if_pos rfl,
        behindClosing?_broken, Option.bind_none]
  | case6 c cs hback hmark hbreak ih =>
      rw [behindClosing?_cons_of_not_isCode rfl, step, if_neg hback, if_neg hmark, if_neg hbreak, ih]

theorem behindClosing?_lineComment (depth : Nat) (cs : List Char) :
    lineComment.behindClosing? depth cs = (code false).behindClosing? depth (skipLine cs) := by
  induction cs with
  | nil => rfl
  | cons c cs ih =>
      rw [behindClosing?_cons_of_not_isCode rfl, step]
      split_ifs with hbreak
      · simp [skipLine, hbreak]
      · rw [ih, skipLine_cons hbreak]

/-- Behind a star that does not close the comment, the comment goes on as before. -/
theorem behindClosing?_blockComment {context : Context} {cs : List Char}
    (hcontext : context = blockComment ∨ context = star ∧ cs.head? ≠ some '/') (depth : Nat) :
    context.behindClosing? depth cs =
      (skipBlock cs).bind ((code false).behindClosing? depth) := by
  have hcode : context.isCode = false := by
    rcases hcontext with rfl | ⟨rfl, -⟩ <;> rfl
  fun_induction skipBlock cs generalizing context with
  | case1 => rfl
  | case2 c cs hclose =>
      obtain ⟨rfl, hhead⟩ := hclose
      obtain ⟨cs, rfl⟩ := List.head?_eq_some_iff.mp hhead
      have hstep : context.step '*' = star := by
        rcases hcontext with rfl | ⟨rfl, -⟩ <;> rfl
      rw [behindClosing?_cons_of_not_isCode hcode, hstep, behindClosing?_cons_of_not_isCode rfl]
      rfl
  | case3 c cs hopen ih =>
      rw [behindClosing?_cons_of_not_isCode hcode]
      by_cases hstar : c = '*'
      · subst hstar
        have hstep : context.step '*' = star := by
          rcases hcontext with rfl | ⟨rfl, -⟩ <;> rfl
        rw [hstep]
        exact ih (Or.inr ⟨rfl, fun hhead => hopen ⟨rfl, hhead⟩⟩) rfl
      · have hstep : context.step c = blockComment := by
          rcases hcontext with rfl | ⟨rfl, hslash⟩
          · simp [step, hstar]
          · have hc : c ≠ '/' := by simpa using hslash
            simp [step, hstar, hc]
        rw [hstep]
        exact ih (Or.inl rfl) rfl

/-- A pending slash is as good as any other code once the next character does not complete the
opening of a comment. -/
theorem behindClosing?_slash {cs : List Char} (hline : cs.head? ≠ some '/')
    (hblock : cs.head? ≠ some '*') (depth : Nat) :
    slash.behindClosing? depth cs = (code false).behindClosing? depth cs := by
  cases cs with
  | nil => rfl
  | cons c cs =>
      have hc : c ≠ '/' ∧ c ≠ '*' := by simpa using And.intro hline hblock
      have hstep : slash.step c = (code false).step c := by simp [step, hc.1, hc.2]
      rw [behindClosing?, behindClosing?, hstep]
      rfl

/-! ## The scanner -/

/-- A quote opens a literal wherever the scanner takes it for one. -/
theorem exists_step_eq_literal {joined : Bool} {c : Char}
    (h : c = '"' ∨ c = '\'' ∧ joined = false) :
    ∃ quote : Quote, c = quote.mark ∧ (code joined).step c = literal quote := by
  rcases h with rfl | ⟨rfl, rfl⟩
  · exact ⟨.double, rfl, rfl⟩
  · exact ⟨.single, rfl, rfl⟩

/-- A slash that completes the opening of a comment leads into it. -/
theorem behindClosing?_comment {joined : Bool} {depth : Nat} {c : Char} {cs : List Char}
    (hopen : c ≠ '(') (hclose : c ≠ ')') :
    (code joined).behindClosing? depth ('/' :: c :: cs) =
      (slash.step c).behindClosing? depth cs := by
  have hslash : (code joined).step '/' = slash := rfl
  rw [behindClosing?_cons_of_eq _ (openStep?_of_ne (by decide) (by decide)), hslash,
    behindClosing?_cons_of_eq _ (openStep?_of_ne hopen hclose)]

/-- The scanner stops where the machine stops. -/
theorem afterClosing_eq_behindClosing? (depth : Nat) (joined : Bool) (cs : List Char) :
    afterClosing depth joined cs = (code joined).behindClosing? depth cs := by
  fun_induction afterClosing depth joined cs with
  | case1 => rfl
  | case2 depth joined cs ih =>
      rw [ih, behindClosing?_cons cs rfl (fun _ => Nat.succ_ne_zero depth)]
      rfl
  | case3 => rfl
  | case4 => rfl
  | case5 joined cs outer _ ih =>
      rw [ih, behindClosing?_cons cs rfl (fun _ => Nat.succ_ne_zero outer)]
      rfl
  | case6 depth joined c cs hopen hclose hquote hskip =>
      obtain ⟨quote, rfl, hstep⟩ := exists_step_eq_literal hquote
      rw [behindClosing?_cons_of_eq cs (openStep?_of_ne hopen hclose), hstep,
        behindClosing?_literal, hskip, Option.bind_none]
  | case7 depth joined c cs hopen hclose hquote behind hskip _ ih =>
      obtain ⟨quote, rfl, hstep⟩ := exists_step_eq_literal hquote
      rw [behindClosing?_cons_of_eq cs (openStep?_of_ne hopen hclose), hstep,
        behindClosing?_literal, hskip, Option.bind_some, ih]
  | case8 depth joined c cs hopen hclose _ hline _ ih =>
      obtain ⟨rfl, hhead⟩ := hline
      obtain ⟨cs, rfl⟩ := List.head?_eq_some_iff.mp hhead
      rw [behindClosing?_comment (by decide) (by decide), ih, skipLine_cons (by decide)]
      exact (behindClosing?_lineComment depth cs).symm
  | case9 depth joined c cs _ _ _ _ hblock hskip =>
      obtain ⟨rfl, hhead⟩ := hblock
      obtain ⟨cs, rfl⟩ := List.head?_eq_some_iff.mp hhead
      have hcomment : (slash.step '*').behindClosing? depth cs = _ :=
        behindClosing?_blockComment (Or.inl rfl) depth
      rw [List.drop_one, List.tail_cons] at hskip
      rw [behindClosing?_comment (by decide) (by decide), hcomment, hskip, Option.bind_none]
  | case10 depth joined c cs _ _ _ _ hblock behind hskip _ ih =>
      obtain ⟨rfl, hhead⟩ := hblock
      obtain ⟨cs, rfl⟩ := List.head?_eq_some_iff.mp hhead
      have hcomment : (slash.step '*').behindClosing? depth cs = _ :=
        behindClosing?_blockComment (Or.inl rfl) depth
      rw [List.drop_one, List.tail_cons] at hskip
      rw [behindClosing?_comment (by decide) (by decide), hcomment, hskip, Option.bind_some, ih]
  | case11 depth joined c cs hopen hclose hquote hline hblock ih =>
      rw [not_or, not_and] at hquote
      rw [behindClosing?_cons_of_eq cs (openStep?_of_ne hopen hclose), ih]
      by_cases hslash : c = '/'
      · subst hslash
        exact (behindClosing?_slash (fun hhead => hline ⟨rfl, hhead⟩)
          (fun hhead => hblock ⟨rfl, hhead⟩) depth).symm
      · rw [step, ofCode, if_neg hquote.1, if_neg (by simpa using hquote.2), if_neg hslash]

end Context

/-- Whether there is a closing parenthesis can be computed by the machine. -/
theorem isSome_closingParen? (text : String) :
    (closingParen? text).isSome = ((Context.code false).behindClosing? 0 text.toList).isSome := by
  rw [closingParen?, Option.isSome_map, Context.afterClosing_eq_behindClosing?]

/-- Every parenthesis of a text that stands in code has its partner there: none closes that was not
opened, and none is left open at the end. -/
def Balanced (text : String) : Prop :=
  (Context.code false).openAfter? 0 text.toList = some 0

instance (text : String) : Decidable (Balanced text) :=
  inferInstanceAs (Decidable (_ = _))

/-- Behind a balanced text that ends in code without anything pending, balance is that of the
rest. -/
theorem balanced_append_iff {front : String} (h : Balanced front) (hscan : scan front = .code false)
    (text : String) : Balanced (front ++ text) ↔ Balanced text := by
  rw [Balanced, String.toList_append, Context.openAfter?_append, h, Option.bind_some, ← scan, hscan,
    Balanced]

/-- A text in which the scanner finds the closing parenthesis falls into the part up to it, which
is balanced and ends in code, and what follows. -/
theorem exists_list_of_closingParen? {text : String} {offset : Nat}
    (h : closingParen? text = some offset) :
    ∃ list trailer : String, text = list ++ trailer ∧ list.toList.getLast? = some ')' ∧
      offset + 1 = size list ∧ scan list = .code false ∧ Balanced list := by
  obtain ⟨rest, hrest, rfl⟩ := Option.map_eq_some_iff.mp h
  rw [Context.afterClosing_eq_behindClosing?] at hrest
  obtain ⟨taken, heq, hcode, hopen⟩ := Context.exists_of_behindClosing? hrest
  refine ⟨String.ofList (taken ++ [')']), String.ofList rest, ?_, by simp, ?_, ?_, ?_⟩
  · rw [← String.ofList_append, ← String.ofList_toList (s := text), heq]
    simp
  · simp only [size, heq, String.toList_ofList, byteLength_append, byteLength]
    have hparen : ')'.utf8Size = 1 := rfl
    omega
  · rw [scan, String.toList_ofList, Context.run_append]
    rcases Context.eq_code_or_eq_slash_of_isCode hcode with ⟨joined, hrun⟩ | hrun
    · rw [hrun]
      rfl
    · rw [hrun]
      rfl
  · have hclose : ((Context.code false).run taken).openStep? 1 ')' = some 0 := by
      simp [Context.openStep?, hcode]
    rw [Balanced, String.toList_ofList, Context.openAfter?_append, hopen, Option.bind_some,
      Context.openAfter?, hclose]
    rfl

end CachedCalls.Lexical
