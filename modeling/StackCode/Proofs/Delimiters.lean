import StackCode.Proofs.Acceptance

/-!
# Delimiters

Any delimiter that is not reserved will do, blanks included, if it occurs in no token. The tokens of
an expression are the texts that were joined, without the blanks at their ends: a delimiter ends
exactly one text, and blanks are dropped only after the expression was cut. If no text is blank then
neither is the expression, which is asked before that.

Pushing looks at the texts alone. So what comes of an expression depends on its texts and not on the
delimiter between them, down to the position and the text of an error. Texts are pushed in turn until
one is refused. The texts behind it are never pushed, and so nothing is reported of them.
-/

namespace StackCode

universe u

/-- Texts with a delimiter between them. -/
def joined (delimiter : Char) (texts : List String) : String :=
  (String.singleton delimiter).intercalate texts

variable {α : Type u}

namespace Assembler

variable {a b : Assembler α}

variable [Arithmetic α]

/-- Pushes a text: what is reported, and the program after it or why it is refused. -/
def push (a : Assembler α) (p : Program α) (text : String) :
    List (Event α) × Except Complaint (Program α) :=
  match a.token text with
  | .error c => ([], .error c)
  | .ok t => pushToken p t

/-- The pushes that texts lead to, each a text with the program that it is pushed to: one after the
other, until one is refused. -/
def pushes (a : Assembler α) : Program α → List String → List (Program α × String)
  | _, [] => []
  | p, text :: rest =>
    (p, text) :: match (a.push p text).2 with
      | .error _ => []
      | .ok q => a.pushes q rest

/-- The texts that are pushed to an empty program, in turn. -/
def pushed (a : Assembler α) (texts : List String) : List String :=
  (a.pushes a.start texts).map Prod.snd

/-- The program after all of some texts, if none is refused. -/
def programAfter (a : Assembler α) (p : Program α) (texts : List String) :
    Except Complaint (Program α) :=
  texts.foldlM (fun p text => (a.push p text).2) p

/-- What comes of texts, of which those are pushed that the second list says: all of them, each once
and in turn, or those up to the first that is refused. -/
inductive Outcome (a : Assembler α) (texts : List String) :
    List String → Except SyntaxError (Program α) → Prop
  /-- All texts are pushed and leave one value. -/
  | sealed {q : Program α} (hafter : a.programAfter a.start texts = .ok q) (hone : q.stackPos = 1) :
      Outcome a texts texts (.ok q.finalize.program)
  /-- All texts are pushed and do not leave one value. -/
  | leftover {q : Program α} (hafter : a.programAfter a.start texts = .ok q)
      (hmany : q.stackPos ≠ 1) :
      Outcome a texts texts (.error (Complaint.leftover q.stackPos).overall)
  /-- The texts before one are pushed, that one is refused, and none behind it is pushed. -/
  | refused {before after : List String} {text : String} {q : Program α} {c : Complaint}
      (htexts : texts = before ++ text :: after) (hafter : a.programAfter a.start before = .ok q)
      (hrefused : (a.push q text).2 = .error c) :
      Outcome a texts (before ++ [text]) (.error ⟨some before.length, text, c⟩)

end Assembler

end StackCode
